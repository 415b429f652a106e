-- Regions as JSON.
import BinaryAtlas.Json.Shape
import BinaryAtlas.Routine

namespace BinaryAtlas.Region

def ofJson? (room : Nat) (json : Json) : Option Region := do
  let (fields, _) ← json.fields? ["start", "end"] room
  let first ← fields.required "start" Json.word32?
  let last ← fields.required "end" Json.word32?
  some { first, last }

def toJson (region : Region) : Json :=
  .ofFields [("start", .ofWord32 region.first), ("end", .ofWord32 region.last)]

end BinaryAtlas.Region
