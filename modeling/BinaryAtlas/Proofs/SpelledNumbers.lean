-- The laws of texts that spell numbers. A numeral is a row of digits, and its
-- number is the value of the row; a word may have a plus sign before it. What is
-- read is just what is spelled, and zeros put before a numeral change nothing.
import BinaryAtlas.Proofs.Numerals
import Mathlib.Data.List.Forall2
import Mathlib.Data.Nat.Digits.Defs
import Mathlib.Tactic.Ring

namespace BinaryAtlas.Text

/-! ## Digits -/

/-- The character is the digit of a value in the radix, in either case. -/
def IsDigit (radix : Nat) (c : Char) (value : Nat) : Prop :=
  value < radix ∧ (c = value.digitChar ∨ c = value.digitChar.toUpper)

/-- What is read as a digit is a figure, or one of six letters in either case. -/
theorem digit?_eq_some {radix : Nat} {c : Char} {value : Nat} (h : digit? radix c = some value) :
    value < radix ∧ (c = Char.ofNat (48 + value) ∧ value < 10 ∨
      ∃ v < 6, value = 10 + v ∧ (c = Char.ofNat (97 + v) ∨ c = Char.ofNat (65 + v))) := by
  have hlt := lt_of_digit? h
  have hc : Char.ofNat c.toNat = c := Char.ofNat_toNat c
  unfold digit? at h
  obtain ⟨-, h⟩ := Option.ite_none_right_eq_some.mp h
  have hvalue := Option.some.inj h
  refine ⟨hlt, ?_⟩
  -- One case for each run of characters; outside of them the value is the radix itself.
  split at hvalue
  · refine .inl ⟨?_, by omega⟩
    rw [← hc]
    congr 1
    omega
  · refine .inr ?_
    split at hvalue
    · refine ⟨value - 10, by omega, by omega, .inl ?_⟩
      rw [← hc]
      congr 1
      omega
    · split at hvalue
      · refine ⟨value - 10, by omega, by omega, .inr ?_⟩
        rw [← hc]
        congr 1
        omega
      · omega

/-- Just the digits of a radix are read. -/
theorem digit?_eq_some_iff {radix : Nat} (hle : radix ≤ 16) {c : Char} {value : Nat} :
    digit? radix c = some value ↔ IsDigit radix c value := by
  have hlow : ∀ v < 10, Char.ofNat (48 + v) = v.digitChar := by decide
  have hsmall : ∀ v < 6, Char.ofNat (97 + v) = (10 + v).digitChar := by decide
  have hlarge : ∀ v < 6, Char.ofNat (65 + v) = (10 + v).digitChar.toUpper := by decide
  have hupper : ∀ radix ≤ 16, ∀ v < radix, digit? radix v.digitChar.toUpper = some v := by decide
  unfold IsDigit
  constructor
  · intro h
    obtain ⟨hlt, ⟨rfl, hten⟩ | ⟨v, hsix, rfl, rfl | rfl⟩⟩ := digit?_eq_some h
    · exact ⟨hlt, .inl (hlow value hten)⟩
    · exact ⟨hlt, .inl (hsmall v hsix)⟩
    · exact ⟨hlt, .inr (hlarge v hsix)⟩
  · rintro ⟨hlt, rfl | rfl⟩
    · exact digit?_digitChar radix hle value hlt
    · exact hupper radix hle value hlt

/-! ## Numerals -/

/-- The text is a numeral of the number: one or more digits whose value it is, where the
last digit counts ones. -/
def IsNumeral (radix : Nat) (cs : List Char) (n : Nat) : Prop :=
  cs ≠ [] ∧ ∃ values, List.Forall₂ (IsDigit radix) cs values ∧ Nat.ofDigits radix values.reverse = n

/-- A row of digits is read as its value, behind the value of the digits before it. -/
theorem digitsValue?_eq_some_iff {radix : Nat} (hle : radix ≤ 16) {cs : List Char} {start n : Nat} :
    digitsValue? radix start cs = some n ↔ ∃ values, List.Forall₂ (IsDigit radix) cs values ∧
      n = Nat.ofDigits radix (values.reverse ++ [start]) := by
  unfold digitsValue?
  induction cs generalizing start with
  | nil => simp [List.forall₂_nil_left_iff, eq_comm]
  | cons c cs ih =>
    have hstep (d : Nat) (values : List Nat) :
        Nat.ofDigits radix (values.reverse ++ [start * radix + d]) =
          Nat.ofDigits radix ((d :: values).reverse ++ [start]) := by
      simp only [List.reverse_cons, Nat.ofDigits_append, Nat.ofDigits_singleton,
        List.length_append, List.length_reverse, List.length_singleton, pow_succ]
      ring
    simp only [List.foldlM_cons, Option.bind_eq_bind, Option.bind_eq_some_iff,
      Option.map_eq_some_iff, digit?_eq_some_iff hle, ih]
    constructor
    · rintro ⟨_, ⟨d, hd, rfl⟩, values, hvalues, rfl⟩
      exact ⟨d :: values, .cons hd hvalues, hstep d values⟩
    · rintro ⟨values, hvalues, rfl⟩
      cases hvalues with
      | @cons _ d _ values hd hvalues =>
        exact ⟨_, ⟨d, hd, rfl⟩, values, hvalues, (hstep d values).symm⟩

theorem isNumeral_iff {radix : Nat} (hle : radix ≤ 16) {cs : List Char} {n : Nat} :
    IsNumeral radix cs n ↔ cs ≠ [] ∧ digitsValue? radix 0 cs = some n := by
  rw [digitsValue?_eq_some_iff hle]
  simp [IsNumeral, Nat.ofDigits_append, eq_comm]

theorem natural?_eq_some_iff {radix : Nat} (hle : radix ≤ 16) {cs : List Char} {n : Nat} :
    natural? radix cs = some n ↔ IsNumeral radix cs n := by
  unfold natural?
  rw [Option.ite_none_left_eq_some, List.isEmpty_iff, isNumeral_iff hle]

namespace IsNumeral

/-- Zeros before a numeral leave its number as it is. -/
theorem padded {radix : Nat} {cs : List Char} {n : Nat} (h : IsNumeral radix cs n) (places : Nat) :
    IsNumeral radix (List.replicate places '0' ++ cs) n := by
  induction places with
  | zero => exact h
  | succ places ih =>
    rw [List.replicate_succ, List.cons_append]
    generalize List.replicate places '0' ++ cs = padded at ih
    obtain ⟨hne, values, hvalues, hvalue⟩ := ih
    have hpos : 0 < radix := by
      cases hvalues with
      | nil => exact absurd rfl hne
      | cons hd _ => exact Nat.zero_lt_of_lt hd.1
    refine ⟨List.cons_ne_nil _ _, 0 :: values, .cons ⟨hpos, .inl rfl⟩ hvalues, ?_⟩
    rw [Nat.ofDigits_reverse_zero_cons, hvalue]

theorem toDigits {radix : Nat} (hone : 1 < radix) (hle : radix ≤ 16) (n : Nat) :
    IsNumeral radix (Nat.toDigits radix n) n :=
  (isNumeral_iff hle).mpr ⟨Nat.toDigits_ne_nil, digitsValue?_toDigits hone hle n⟩

theorem not_plus {radix : Nat} {cs : List Char} {n : Nat} (hle : radix ≤ 16) :
    ¬ IsNumeral radix ('+' :: cs) n := by
  rw [isNumeral_iff hle]
  simp [digitsValue?, digit?]

/-- In hexadecimal just the rows of digits are numerals. -/
theorem exists_iff_isHexDigit {cs : List Char} :
    (∃ n, IsNumeral 16 cs n) ↔ cs ≠ [] ∧ ∀ c ∈ cs, isHexDigit c = true := by
  constructor
  · rintro ⟨n, h⟩
    obtain ⟨hne, hvalue⟩ := (isNumeral_iff (Nat.le_refl 16)).mp h
    exact ⟨hne, isHexDigit_of_digitsValue? hvalue⟩
  · rintro ⟨hne, hdigits⟩
    refine ⟨_, hne, cs.map fun c => (digit? 16 c).getD 0, ?_, rfl⟩
    rw [List.forall₂_map_right_iff, List.forall₂_same]
    intro c hc
    obtain ⟨value, hvalue⟩ := Option.isSome_iff_exists.mp (hdigits c hc)
    rw [hvalue]
    exact (digit?_eq_some_iff (Nat.le_refl 16)).mp hvalue

end IsNumeral

/-! ## Words -/

/-- The text spells the word: a numeral of it, with or without a plus sign before. -/
def IsWord (radix : Nat) (cs : List Char) (n : UInt32) : Prop :=
  ∃ digits, (cs = digits ∨ cs = '+' :: digits) ∧ IsNumeral radix digits n.toNat

theorem IsNumeral.isWord {radix : Nat} {cs : List Char} {n : UInt32}
    (h : IsNumeral radix cs n.toNat) : IsWord radix cs n :=
  ⟨cs, .inl rfl, h⟩

/-- A text reads as a word just if it spells it. Numerals of larger numbers spell none. -/
theorem word?_eq_some_iff {radix : Nat} (hle : radix ≤ 16) {cs : List Char} {n : UInt32} :
    word? radix cs = some n ↔ IsWord radix cs n := by
  unfold word? IsWord
  constructor
  · intro h
    split at h
    · rename_i value hvalue
      obtain ⟨hlt, hn⟩ := Option.ite_none_right_eq_some.mp h
      obtain rfl := Option.some.inj hn
      refine ⟨dropPlus cs, ?_, ?_⟩
      · unfold dropPlus
        split
        · exact .inr rfl
        · exact .inl rfl
      · rw [UInt32.toNat_ofNat_of_lt' hlt]
        exact (natural?_eq_some_iff hle).mp hvalue
    · cases h
  · rintro ⟨digits, hcs, hdigits⟩
    have hdrop : dropPlus cs = digits := by
      rcases hcs with rfl | rfl
      · unfold dropPlus
        split
        · exact absurd hdigits (IsNumeral.not_plus hle)
        · rfl
      · rfl
    rw [hdrop, (natural?_eq_some_iff hle).mpr hdigits]
    simp [n.toNat_lt_size]

/-- A hexadecimal word is made of its digits and perhaps a plus sign. -/
theorem IsWord.isHexDigit_or_plus {cs : List Char} {n : UInt32} (h : IsWord 16 cs n) {c : Char}
    (hc : c ∈ cs) : isHexDigit c = true ∨ c = '+' := by
  obtain ⟨digits, hcs, hdigits⟩ := h
  have hhex := (IsNumeral.exists_iff_isHexDigit.mp ⟨_, hdigits⟩).2
  rcases hcs with rfl | rfl
  · exact .inl (hhex c hc)
  · rcases List.mem_cons.mp hc with rfl | hc
    · exact .inr rfl
    · exact .inl (hhex c hc)

end BinaryAtlas.Text
