-- Values of a known shape. A reader takes a value and the room that is left:
-- how many more lists and objects may stand open around a part of the value.
-- The parts of a structure stand in an object under their names, or in a list
-- in their order. An entry of another name is passed over, whatever it holds.
import BinaryAtlas.Json.Tree
import Std.Data.ExtTreeMap

namespace BinaryAtlas.Json

/-- How many lists and objects of a known shape may stand open at once. -/
def nestingLimit : Nat := 127

/-! ## Simple values -/

/-- A number below `bound` without sign, fraction and exponent. -/
def naturalBelow? (bound : Nat) (json : Json) : Option Nat :=
  json.natural?.filter (· < bound)

def word32? (json : Json) : Option UInt32 := (json.naturalBelow? UInt32.size).map UInt32.ofNat

def word64? (json : Json) : Option Nat := json.naturalBelow? UInt64.size

def flag? : Json → Option Bool
  | .flag value => some value
  | _ => none

/-- A value that may be null. -/
def nullable? {α : Type} (read : Json → Option α) : Json → Option (Option α)
  | .null => some none
  | json => (read json).map some

/-! ## Collections -/

def list? {α : Type} (read : Nat → Json → Option α) : Nat → Json → Option (List α)
  | room + 1, .list items => items.mapM (read room)
  | _, _ => none

/-- One more text under its name; a name that stands there already gets the
new text. -/
def addText (texts : Std.ExtTreeMap String String) (entry : List UInt8 × Json) :
    Option (Std.ExtTreeMap String String) := do
  let name ← readText? entry.1
  let text ← entry.2.string?
  some (texts.insert (.ofList name) text)

def texts? : Nat → Json → Option (Std.ExtTreeMap String String)
  | _ + 1, .object entries => entries.foldlM addText ∅
  | _, _ => none

/-! ## Structures -/

/-- The parts of a structure, and whether they were given by name. -/
structure Fields where
  named : Bool
  parts : List (String × Json)

namespace Fields

/-- One more entry: passed over if the name is none of the structure, refused
if the name came before or is no text. -/
def add (names : List String) (parts : List (String × Json)) (entry : List UInt8 × Json) :
    Option (List (String × Json)) := do
  let cs ← readText? entry.1
  let name := String.ofList cs
  if !names.contains name then some parts
  else if (parts.lookup name).isSome then none
  else some ((name, entry.2) :: parts)

/-- The part of a name. -/
def get? (fields : Fields) (name : String) : Option Json := fields.parts.lookup name

def required {α : Type} (fields : Fields) (name : String) (read : Json → Option α) : Option α :=
  (fields.get? name).bind read

/-- A part that has a value of its own when it is missing. -/
def orElse {α : Type} (fields : Fields) (name : String) (missing : α) (read : Json → Option α) :
    Option α :=
  match fields.get? name with
  | some json => read json
  | none => some missing

/-- A part that may be null, and that may be missing among named parts only. -/
def optional {α : Type} (fields : Fields) (name : String) (read : Json → Option α) :
    Option (Option α) :=
  match fields.get? name with
  | some json => nullable? read json
  | none => if fields.named then some none else none

end Fields

/-- The parts of a structure with these names, and the room inside it. -/
def fields? (names : List String) : Nat → Json → Option (Fields × Nat)
  | room + 1, .object entries => do
    let parts ← entries.foldlM (Fields.add names) []
    some ({ named := true, parts }, room)
  | room + 1, .list items =>
    if items.length ≤ names.length then some ({ named := false, parts := names.zip items }, room)
    else none
  | _, _ => none

/-! ## Choices -/

/-- A choice without data: its word, alone or as the only name of an object
that holds null. -/
def choice? : Nat → Json → Option String
  | _, .text spelling => (readText? spelling).map String.ofList
  | _ + 1, .object [(name, .null)] => (readText? name).map String.ofList
  | _, _ => none

/-- A choice with data: its word, the data, and the room around the data. -/
def choiceWith? : Nat → Json → Option (String × Json × Nat)
  | room + 1, .object [(name, data)] => (readText? name).map fun cs => (.ofList cs, data, room)
  | _, _ => none

/-! ## Writing structures -/

def ofFields (fields : List (String × Json)) : Json :=
  .object (fields.map fun (name, value) => (spellText name.toList, value))

def ofOption {α : Type} (write : α → Json) : Option α → Json
  | none => .null
  | some value => write value

def ofWord32 (word : UInt32) : Json := ofNat word.toNat

def ofList {α : Type} (write : α → Json) (items : List α) : Json := .list (items.map write)

end BinaryAtlas.Json
