-- The kinds of types, and the word that a message uses for each.

namespace BinaryAtlas

inductive TypeKind
  | primitive
  | enumeration
  | struct
  | union
  | signature
  | typedef
  | pointer
  | array
  | string
  | placeholder
deriving DecidableEq

namespace TypeKind

def word : TypeKind → String
  | primitive => "primitive"
  | enumeration => "enum"
  | struct => "struct"
  | union => "union"
  | signature => "function"
  | typedef => "typedef"
  | pointer => "pointer"
  | array => "array"
  | string => "string"
  | placeholder => "placeholder"

/-- All kinds. -/
def all : List TypeKind :=
  [primitive, enumeration, struct, union, signature, typedef, pointer, array, string, placeholder]

end TypeKind

end BinaryAtlas
