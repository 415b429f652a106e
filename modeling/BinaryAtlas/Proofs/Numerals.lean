-- The laws of numerals. What is written in digits reads back, in hexadecimal
-- places or in the digits of any radix, and what reads as hexadecimal digits is
-- ASCII.
import BinaryAtlas.Text.Numeral
import Mathlib.Algebra.Group.Nat.Defs

namespace BinaryAtlas.Text

/-! ## Digits -/

theorem mem_hexPlaces {c : Char} {places n : Nat} (h : c ∈ hexPlaces places n) :
    ∃ value < 16, c = hexDigit value := by
  induction places generalizing n with
  | zero => cases h
  | succ places ih =>
    rcases List.mem_append.mp h with h | h
    · exact ih h
    · exact ⟨n % 16, Nat.mod_lt n (by decide), List.mem_singleton.mp h⟩

theorem ascii_hexAddress (address : UInt32) : ∀ c ∈ hexAddress address, c.toNat < 0x80 := by
  have hdigit : ∀ value < 16, (hexDigit value).toNat < 0x80 := by decide
  intro c hc
  obtain ⟨value, hlt, rfl⟩ := mem_hexPlaces hc
  exact hdigit value hlt

theorem lt_of_isHexDigit {c : Char} (h : isHexDigit c = true) : c.toNat < 0x80 := by
  by_cases hc : c.toNat < 0x80
  · exact hc
  · have h9 : ¬ c.toNat ≤ 57 := by omega
    have hf : ¬ c.toNat ≤ 102 := by omega
    have hF : ¬ c.toNat ≤ 70 := by omega
    simp [isHexDigit, digit?, h9, hf, hF] at h

theorem isHexDigit_of_digitsValue? {cs : List Char} {start n : Nat}
    (h : digitsValue? 16 start cs = some n) : ∀ c ∈ cs, isHexDigit c = true := by
  unfold digitsValue? at h
  induction cs generalizing start with
  | nil => exact nofun
  | cons c cs ih =>
    rw [List.foldlM_cons] at h
    obtain ⟨value, hvalue, hrest⟩ := Option.bind_eq_some_iff.mp h
    obtain ⟨d, hd, -⟩ := Option.map_eq_some_iff.mp hvalue
    intro c' hc'
    rcases List.mem_cons.mp hc' with rfl | hc'
    · unfold isHexDigit
      rw [hd]
      rfl
    · exact ih hrest c' hc'

theorem lt_of_digit? {radix : Nat} {c : Char} {d : Nat} (h : digit? radix c = some d) :
    d < radix := by
  unfold digit? at h
  obtain ⟨hlt, he⟩ := Option.ite_none_right_eq_some.mp h
  exact Option.some.inj he ▸ hlt

/-- The value of a run of digits is bounded by its length. -/
theorem digitsValue?_lt {radix : Nat} {cs : List Char} {start n : Nat}
    (h : digitsValue? radix start cs = some n) : n < (start + 1) * radix ^ cs.length := by
  unfold digitsValue? at h
  induction cs generalizing start with
  | nil =>
    obtain rfl := Option.some.inj h
    simp
  | cons c cs ih =>
    rw [List.foldlM_cons] at h
    obtain ⟨value, hvalue, hrest⟩ := Option.bind_eq_some_iff.mp h
    obtain ⟨d, hd, rfl⟩ := Option.map_eq_some_iff.mp hvalue
    have hlt := lt_of_digit? hd
    calc n < (start * radix + d + 1) * radix ^ cs.length := ih hrest
      _ ≤ ((start + 1) * radix) * radix ^ cs.length := by
        apply Nat.mul_le_mul_right
        rw [Nat.add_mul, Nat.one_mul]
        omega
      _ = (start + 1) * radix ^ (c :: cs).length := by
        rw [List.length_cons, Nat.pow_succ, Nat.mul_assoc, Nat.mul_comm radix]

/-! ## Places -/

/-- Written places read back as the number modulo their weight. -/
theorem digitsValue?_hexPlaces (places start n : Nat) :
    digitsValue? 16 start (hexPlaces places n) = some (start * 16 ^ places + n % 16 ^ places) := by
  induction places generalizing n with
  | zero => simp [digitsValue?, hexPlaces, Nat.mod_one]
  | succ places ih =>
    have ih' := ih (n / 16)
    unfold digitsValue? at ih' ⊢
    rw [hexPlaces, List.foldlM_append, ih']
    have hd : digit? 16 (hexDigit (n % 16)) = some (n % 16) :=
      digit?_hexDigit _ (Nat.mod_lt _ (by decide))
    simp only [Option.bind_eq_bind, Option.bind_some, List.foldlM_cons, hd, Option.map_some,
      List.foldlM_nil, Option.pure_def, Option.some.injEq]
    have h := Nat.mod_mul (x := n) (a := 16) (b := 16 ^ places)
    rw [show 16 ^ (places + 1) = 16 * 16 ^ places by rw [Nat.pow_succ, Nat.mul_comm], h,
      Nat.add_mul, Nat.mul_assoc, Nat.mul_comm (16 ^ places) 16,
      Nat.mul_comm (n / 16 % 16 ^ places) 16]
    omega

/-! ## Written numbers -/

theorem digit?_digitChar :
    ∀ radix ≤ 16, ∀ value < radix, digit? radix value.digitChar = some value := by
  decide

/-- A number that is written in digits reads back. -/
theorem digitsValue?_toDigits {radix : Nat} (hone : 1 < radix) (hle : radix ≤ 16) (n : Nat) :
    digitsValue? radix 0 (Nat.toDigits radix n) = some n := by
  induction n using Nat.strongRecOn with
  | ind n ih =>
    rcases Nat.lt_or_ge n radix with hlt | hge
    · rw [Nat.toDigits_of_lt_base hlt]
      simp [digitsValue?, digit?_digitChar radix hle n hlt]
    · have hfront := ih (n / radix) (Nat.div_lt_self (by omega) hone)
      have hlast := digit?_digitChar radix hle (n % radix) (Nat.mod_lt n (by omega))
      unfold digitsValue? at hfront ⊢
      rw [Nat.toDigits_of_base_le hone hge, List.foldlM_append, hfront]
      simp [hlast, Nat.div_add_mod']

/-- A word that is written in digits reads back. No digit passes for a plus sign. -/
theorem word?_toDigits {radix : Nat} (hone : 1 < radix) (hle : radix ≤ 16) (n : UInt32) :
    word? radix (Nat.toDigits radix n.toNat) = some n := by
  have hvalue := digitsValue?_toDigits hone hle n.toNat
  have hdigits : (Nat.toDigits radix n.toNat).isEmpty = false :=
    List.isEmpty_eq_false_iff.mpr Nat.toDigits_ne_nil
  generalize Nat.toDigits radix n.toNat = digits at hvalue hdigits
  have hplain : dropPlus digits = digits := by
    unfold dropPlus
    split
    · simp [digitsValue?, digit?] at hvalue
    · rfl
  simp only [word?, hplain, natural?, hdigits, Bool.false_eq_true, if_false, hvalue]
  rw [if_pos n.toNat_lt_size, UInt32.ofNat_toNat]

end BinaryAtlas.Text
