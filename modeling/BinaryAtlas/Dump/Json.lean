-- Code blocks as JSON.
import BinaryAtlas.Dump.Basic
import BinaryAtlas.Json.Shape

namespace BinaryAtlas.CodeBlock

def ofJson? (room : Nat) (json : Json) : Option CodeBlock := do
  let (fields, room) ← json.fields? ["address", "lines", "line_addresses"] room
  let address ← fields.required "address" Json.word32?
  let lines ← fields.required "lines" (Json.list? (fun _ => Json.string?) room)
  let addresses ← fields.required "line_addresses" (Json.list? (fun _ => Json.word32?) room)
  some { address, lines, addresses }

def toJson (block : CodeBlock) : Json :=
  .ofFields [("address", .ofWord32 block.address), ("lines", .ofList Json.ofString block.lines),
    ("line_addresses", .ofList Json.ofWord32 block.addresses)]

end BinaryAtlas.CodeBlock
