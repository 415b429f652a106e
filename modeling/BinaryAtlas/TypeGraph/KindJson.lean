-- Kinds of types as JSON.
import BinaryAtlas.Json.Shape
import BinaryAtlas.TypeGraph.Kind

namespace BinaryAtlas.TypeKind

def documentWord : TypeKind → String
  | primitive => "Primitive"
  | enumeration => "Enum"
  | struct => "Struct"
  | union => "Union"
  | signature => "FuncPointer"
  | typedef => "Alias"
  | pointer => "Pointer"
  | array => "Array"
  | string => "String"
  | placeholder => "Placeholder"

def ofJson? (room : Nat) (json : Json) : Option TypeKind :=
  (json.choice? room).bind fun word => all.find? fun kind => kind.documentWord == word

def toJson (kind : TypeKind) : Json := .ofString kind.documentWord

end BinaryAtlas.TypeKind
