-- Calls and their counts as JSON.
import BinaryAtlas.Calls.Graph
import BinaryAtlas.Json.Shape

namespace BinaryAtlas

namespace CallRecord

def ofJson? (room : Nat) (json : Json) : Option CallRecord := do
  let (fields, _) ← json.fields? ["address", "target"] room
  let address ← fields.required "address" Json.word32?
  let target ← fields.required "target" Json.string?
  some { address, target }

def toJson (call : CallRecord) : Json :=
  .ofFields [("address", .ofWord32 call.address), ("target", .ofString call.target)]

end CallRecord

namespace CallStats

def partNames : List String := ["calls", "scanned", "edges", "skipped", "unresolved", "ignored"]

def ofJson? (room : Nat) (json : Json) : Option CallStats := do
  let (fields, _) ← json.fields? partNames room
  let calls ← fields.required "calls" Json.word64?
  let scanned ← fields.required "scanned" Json.word64?
  let edges ← fields.required "edges" Json.word64?
  let skipped ← fields.required "skipped" Json.word64?
  let unresolved ← fields.required "unresolved" Json.word64?
  let ignored ← fields.required "ignored" Json.word64?
  some { calls, scanned, edges, skipped, unresolved, ignored }

def toJson (stats : CallStats) : Json :=
  .ofFields [("calls", .ofNat stats.calls), ("scanned", .ofNat stats.scanned),
    ("edges", .ofNat stats.edges), ("skipped", .ofNat stats.skipped),
    ("unresolved", .ofNat stats.unresolved), ("ignored", .ofNat stats.ignored)]

end CallStats

end BinaryAtlas
