-- Export records. An export is a tree of records, and the rules for numbers in
-- attributes are the same for every kind of record.
import BinaryAtlas.Fault
import BinaryAtlas.Text.Numeral
import Std.Data.ExtTreeMap

namespace BinaryAtlas

structure Record where
  kind : RecordKind
  attributes : Std.ExtTreeMap String String := ∅
  children : List Record := []
  text : Option String := none

namespace Record

/-! ## Building -/

/-- The record with one more attribute; an attribute of that name gives way. -/
def withAttribute (record : Record) (name value : String) : Record :=
  { record with attributes := record.attributes.insert name value }

/-- The record with one more record inside it, after the others. -/
def withChild (record child : Record) : Record :=
  { record with children := record.children ++ [child] }

def withText (record : Record) (text : String) : Record := { record with text := some text }

/-! ## Records inside -/

/-- The records of one kind inside this one, in order. -/
def childrenOf (record : Record) (kind : RecordKind) : List Record :=
  record.children.filter (·.kind == kind)

def firstChild? (record : Record) (kind : RecordKind) : Option Record :=
  (record.childrenOf kind).head?

/-! ## Text attributes -/

def attribute? (record : Record) (name : String) : Option String := record.attributes[name]?

/-- The value of an attribute, or the empty text. -/
def attributeOrEmpty (record : Record) (name : String) : String :=
  (record.attribute? name).getD ""

def required (record : Record) (name : String) : Except Fault String :=
  match record.attribute? name with
  | some value => .ok value
  | none => .error (.missingAttribute record.kind name)

/-! ## Keys -/

/-- The key that the record declares. -/
def key (record : Record) : TypeKey :=
  .of (record.attributeOrEmpty "NAMESPACE") (record.attributeOrEmpty "NAME")

/-- The key of the data type that the record refers to. -/
def dataTypeKey (record : Record) : TypeKey :=
  .of (Text.trimmed (record.attributeOrEmpty "DATATYPE_NAMESPACE"))
    (Text.trimmed (record.attributeOrEmpty "DATATYPE"))

/-! ## Numbers -/

/-- A number in decimal digits, or in hexadecimal digits after `0x`. -/
def numberOf? : List Char → Option UInt32
  | '0' :: 'x' :: digits => Text.word? 16 digits
  | digits => Text.word? 10 digits

def number (record : Record) (name : String) : Except Fault UInt32 := do
  let value ← record.required name
  match numberOf? value.toList with
  | some n => .ok n
  | none => .error (.invalidNumber name value)

/-- The address in an attribute, in hexadecimal digits. A value with a colon
is no place in the program: it gives none. -/
def address (record : Record) (name : String) : Except Fault (Option UInt32) := do
  let value ← record.required name
  if value.toList.contains ':' then .ok none
  else
    match Text.word? 16 value.toList with
    | some n => .ok (some n)
    | none => .error (.invalidNumber name value)

end Record

/-! ## Documents -/

/-- An export: its records, in order. -/
structure Export where
  records : List Record

namespace Export

/-- The records of one kind, in order. -/
def recordsOf (doc : Export) (kind : RecordKind) : List Record :=
  doc.records.filter (·.kind == kind)

def push (doc : Export) (record : Record) : Export := { records := doc.records ++ [record] }

end Export

end BinaryAtlas
