-- Faults: why a program cannot be read, and the text that tells it.
import BinaryAtlas.Export.Kind
import BinaryAtlas.Text.Quoted
import BinaryAtlas.TypeGraph.Kind
import BinaryAtlas.TypeKey

namespace BinaryAtlas

/-- A reason to give up. Everything else that is odd in an export is passed
over. -/
inductive Fault
  /-- A record lacks an attribute that its kind needs. -/
  | missingAttribute (kind : RecordKind) (field : String)
  /-- An attribute holds no number of the form that it needs. -/
  | invalidNumber (field value : String)
  /-- A type definition names a key that already has a type of its own. -/
  | conflictingDeclaration (key : TypeKey) (kind : TypeKind) (existing : TypeKey)
  /-- The empty path spells no key. -/
  | emptyTypeName
  /-- There is no file at a path. -/
  | fileNotFound
  /-- A text is no JSON of the form that it needs. -/
  | malformedJson
deriving DecidableEq

namespace Fault

def message : Fault → String
  | missingAttribute kind field =>
    "Attribute " ++ field ++ " was not found on " ++ kind.word ++ " record"
  | invalidNumber field value =>
    "Attribute " ++ field ++ " has non-numeric value " ++ Text.quoted value
  | conflictingDeclaration key kind existing =>
    "The type " ++ key.path ++ " is already defined as " ++ kind.word ++ " " ++ existing.path
  | emptyTypeName => "Invalid type key: cannot parse an empty type name"
  | fileNotFound => "NotFound"
  | malformedJson => "The text is no JSON of the form that was asked for"

end Fault

end BinaryAtlas
