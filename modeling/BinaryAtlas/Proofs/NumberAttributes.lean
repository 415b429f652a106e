-- The laws of numbers in attributes. A reader of an attribute gives what the text
-- means to it; a text without a meaning and an attribute that is not there are
-- faults, each of its own kind. Numbers and addresses are read by such readers.
import BinaryAtlas.Export.Record
import BinaryAtlas.Proofs.SpelledNumbers

namespace BinaryAtlas.Record

/-! ## Meanings -/

/-- The text spells a number: in hexadecimal digits behind `0x`, or else in decimal
digits. -/
def SpellsNumber (cs : List Char) (n : UInt32) : Prop :=
  (∃ digits, cs = '0' :: 'x' :: digits ∧ Text.IsWord 16 digits n) ∨ Text.IsWord 10 cs n

/-- What the text says of an address. With a colon it is no place in the program, and
otherwise it spells the place in hexadecimal digits. -/
def SpellsAddress (cs : List Char) : Option UInt32 → Prop
  | none => ':' ∈ cs
  | some address => ':' ∉ cs ∧ Text.IsWord 16 cs address

/-- The text without a `0x` is decimal. -/
theorem not_isWord_of_mark {digits : List Char} {n : UInt32} :
    ¬ Text.IsWord 10 ('0' :: 'x' :: digits) n := by
  rw [← Text.word?_eq_some_iff (by decide)]
  simp [Text.word?, Text.dropPlus, Text.natural?, Text.digitsValue?, Text.digit?]

theorem numberOf?_eq_some_iff {cs : List Char} {n : UInt32} :
    numberOf? cs = some n ↔ SpellsNumber cs n := by
  unfold numberOf? SpellsNumber
  split
  · rename_i digits
    rw [Text.word?_eq_some_iff (by decide)]
    simp [not_isWord_of_mark]
  · rename_i hmark
    rw [Text.word?_eq_some_iff (by decide)]
    constructor
    · exact .inr
    · rintro (⟨digits, rfl, -⟩ | h)
      · exact absurd rfl (hmark digits)
      · exact h

/-- The address that a text spells. -/
def addressOf? (cs : List Char) : Option (Option UInt32) :=
  if ':' ∈ cs then some none else (Text.word? 16 cs).map some

theorem addressOf?_eq_some_iff {cs : List Char} {address : Option UInt32} :
    addressOf? cs = some address ↔ SpellsAddress cs address := by
  unfold addressOf?
  by_cases hcolon : ':' ∈ cs
  · cases address <;> simp [SpellsAddress, hcolon]
  · cases address <;> simp [SpellsAddress, hcolon, Text.word?_eq_some_iff]

/-! ## Readers -/

/-- The outcome is what the attribute means, or a fault: that of a text without a
meaning, or that of an attribute which is not there. -/
structure Reads {Value : Type} (record : Record) (name : String)
    (Means : List Char → Value → Prop) (outcome : Except Fault Value) : Prop where
  ok_iff : ∀ value, outcome = .ok value ↔
    ∃ text, record.attribute? name = some text ∧ Means text.toList value
  invalid : ∀ text, record.attribute? name = some text → (∀ value, ¬ Means text.toList value) →
    outcome = .error (.invalidNumber name text)
  missing : record.attribute? name = none → outcome = .error (.missingAttribute record.kind name)

/-- The attribute, read by a function on its text. -/
def read {Value : Type} (record : Record) (name : String) (parse : List Char → Option Value) :
    Except Fault Value := do
  let text ← record.required name
  match parse text.toList with
  | some value => .ok value
  | none => .error (.invalidNumber name text)

theorem reads_read {Value : Type} {parse : List Char → Option Value}
    {Means : List Char → Value → Prop} (h : ∀ cs value, parse cs = some value ↔ Means cs value)
    (record : Record) (name : String) : record.Reads name Means (record.read name parse) := by
  unfold read required
  cases hattribute : record.attribute? name with
  | none =>
    refine ⟨?_, ?_, fun _ => rfl⟩
    · simp [hattribute, bind, Except.bind]
    · simp [hattribute]
  | some text =>
    cases hparse : parse text.toList with
    | none =>
      refine ⟨?_, ?_, ?_⟩
      · simp [hattribute, ← h, hparse, bind, Except.bind]
      · simp [hattribute, hparse, bind, Except.bind]
      · simp [hattribute]
    | some value =>
      refine ⟨?_, ?_, ?_⟩
      · simp [hattribute, ← h, hparse, bind, Except.bind]
      · simp [hattribute, ← h, hparse]
      · simp [hattribute]

theorem number_eq (record : Record) (name : String) :
    record.number name = record.read name numberOf? := by
  unfold number read required
  cases record.attribute? name with
  | none => rfl
  | some text => cases hnumber : numberOf? text.toList <;> simp [hnumber, bind, Except.bind]

theorem address_eq (record : Record) (name : String) :
    record.address name = record.read name addressOf? := by
  unfold address read required addressOf?
  cases record.attribute? name with
  | none => rfl
  | some text =>
    by_cases hcolon : ':' ∈ text.toList
    · simp [hcolon, bind, Except.bind]
    · cases hword : Text.word? 16 text.toList <;> simp [hcolon, hword, bind, Except.bind]

theorem reads_number (record : Record) (name : String) :
    record.Reads name SpellsNumber (record.number name) := by
  rw [number_eq]
  exact reads_read (fun _ _ => numberOf?_eq_some_iff) record name

theorem reads_address (record : Record) (name : String) :
    record.Reads name SpellsAddress (record.address name) := by
  rw [address_eq]
  exact reads_read (fun _ _ => addressOf?_eq_some_iff) record name

/-! ## Written numbers -/

theorem attribute?_withAttribute (record : Record) (name text : String) :
    (record.withAttribute name text).attribute? name = some text := by
  simp [withAttribute, attribute?]

theorem number_withAttribute (record : Record) (name : String) {cs : List Char} {n : UInt32}
    (h : SpellsNumber cs n) : (record.withAttribute name (.ofList cs)).number name = .ok n := by
  rw [(reads_number _ name).ok_iff]
  refine ⟨_, attribute?_withAttribute record name _, ?_⟩
  rw [String.toList_ofList]
  exact h

/-- A colon is no digit. -/
theorem address_withAttribute (record : Record) (name : String) {cs : List Char} {n : UInt32}
    (h : Text.IsWord 16 cs n) :
    (record.withAttribute name (.ofList cs)).address name = .ok (some n) := by
  have hcolon : ':' ∉ cs := by
    intro hmem
    rcases h.isHexDigit_or_plus hmem with hdigit | hplus
    · exact absurd hdigit (by decide)
    · exact absurd hplus (by decide)
  rw [(reads_address _ name).ok_iff]
  refine ⟨_, attribute?_withAttribute record name _, ?_⟩
  rw [String.toList_ofList]
  exact ⟨hcolon, h⟩

/-- Numbers and addresses are read from just the texts that spell them. Any other text
is a fault that names it, and an attribute that is not there is a fault as well. Each word
reads back from its decimal digits, from its hexadecimal digits behind `0x`, and as an
address from its hexadecimal digits behind any row of zeros. -/
theorem attributes_are_read_as_they_are_spelled (record : Record) (name : String) :
    record.Reads name SpellsNumber (record.number name) ∧
    record.Reads name SpellsAddress (record.address name) ∧
    ∀ (n : UInt32) (places : Nat),
      let decimal := Nat.toDigits 10 n.toNat
      let hexadecimal := Nat.toDigits 16 n.toNat
      (record.withAttribute name (.ofList decimal)).number name = .ok n ∧
      (record.withAttribute name (.ofList ('0' :: 'x' :: hexadecimal))).number name = .ok n ∧
      (record.withAttribute name (.ofList (List.replicate places '0' ++ hexadecimal))).address
        name = .ok (some n) := by
  refine ⟨reads_number record name, reads_address record name, fun n places => ?_⟩
  have hdecimal : Text.IsNumeral 10 (Nat.toDigits 10 n.toNat) n.toNat :=
    .toDigits (by decide) (by decide) _
  have hhexadecimal : Text.IsNumeral 16 (Nat.toDigits 16 n.toNat) n.toNat :=
    .toDigits (by decide) (by decide) _
  refine ⟨?_, ?_, ?_⟩
  · exact number_withAttribute record name (.inr hdecimal.isWord)
  · exact number_withAttribute record name (.inl ⟨_, rfl, hhexadecimal.isWord⟩)
  · exact address_withAttribute record name (hhexadecimal.padded places).isWord

end BinaryAtlas.Record
