-- Type keys as JSON: a structure of a scope and a name, taken as they stand.
import BinaryAtlas.Json.Shape
import BinaryAtlas.TypeKey

namespace BinaryAtlas.TypeKey

/-- The key that a value holds; no slash of its scope is dropped. -/
def ofJson? (room : Nat) (json : Json) : Option TypeKey := do
  let (fields, _) ← json.fields? ["namespace", "name"] room
  let scope ← fields.required "namespace" Json.string?
  let name ← fields.required "name" Json.string?
  some { scope, name }

def toJson (key : TypeKey) : Json :=
  .ofFields [("namespace", .ofString key.scope), ("name", .ofString key.name)]

end BinaryAtlas.TypeKey
