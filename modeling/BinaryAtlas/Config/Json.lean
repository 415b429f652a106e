-- Settings as JSON. Every part may be missing and then has its usual value.
import BinaryAtlas.Config
import BinaryAtlas.Fault
import BinaryAtlas.Json.Shape

namespace BinaryAtlas

namespace CallTargets

def partNames : List String := ["local_label_prefix", "multi_target_marker", "indirect_registers"]

def ofJson? (room : Nat) (json : Json) : Option CallTargets := do
  let (fields, room) ← json.fields? partNames room
  let usual : CallTargets := {}
  let labelStart ← fields.orElse "local_label_prefix" usual.labelStart Json.string?
  let manyMark ← fields.orElse "multi_target_marker" usual.manyMark Json.string?
  let registers ← fields.orElse "indirect_registers" usual.registers
    (Json.list? (fun _ => Json.string?) room)
  some { labelStart, manyMark, registers }

def toJson (targets : CallTargets) : Json :=
  .ofFields [("local_label_prefix", .ofString targets.labelStart),
    ("multi_target_marker", .ofString targets.manyMark),
    ("indirect_registers", .ofList Json.ofString targets.registers)]

end CallTargets

namespace LoadConfig

def partNames : List String := ["pointer_size", "skip_case_symbols", "call_targets"]

def ofJson? (room : Nat) (json : Json) : Option LoadConfig := do
  let (fields, room) ← json.fields? partNames room
  let usual : LoadConfig := {}
  let pointerSize ← fields.orElse "pointer_size" usual.pointerSize Json.word32?
  let skipCaseSymbols ← fields.orElse "skip_case_symbols" usual.skipCaseSymbols Json.flag?
  let callTargets ← fields.orElse "call_targets" usual.callTargets (CallTargets.ofJson? room)
  some { pointerSize, skipCaseSymbols, callTargets }

def toJson (config : LoadConfig) : Json :=
  .ofFields [("pointer_size", .ofWord32 config.pointerSize),
    ("skip_case_symbols", .flag config.skipCaseSymbols),
    ("call_targets", config.callTargets.toJson)]

/-- The settings that a text holds. -/
def parse (bytes : List UInt8) : Except Fault LoadConfig :=
  match (Json.parse? bytes).bind (ofJson? Json.nestingLimit) with
  | some config => .ok config
  | none => .error .malformedJson

end LoadConfig

end BinaryAtlas
