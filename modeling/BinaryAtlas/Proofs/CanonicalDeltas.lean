-- The laws of packed deltas read the other way. A text comes back from its deltas
-- just if it is a row of tokens, each the one way to write a delta: a digit, or the
-- digits of a larger number in brackets without a zero before them, and a minus sign
-- for what is below zero.
import BinaryAtlas.Proofs.Deltas
import Mathlib.Algebra.Group.Int.Defs
import Mathlib.Algebra.Group.Nat.Defs

namespace BinaryAtlas.Delta

/-! ## Places -/

theorem placesValue_lt {ds : List Nat} (h : ∀ d ∈ ds, d < 64) (start : Nat) :
    placesValue start ds < (start + 1) * 64 ^ ds.length := by
  unfold placesValue
  induction ds generalizing start with
  | nil => simp
  | cons d ds ih =>
    have hd := h d List.mem_cons_self
    calc ds.foldl (fun value d => value * 64 + d) (start * 64 + d)
        < (start * 64 + d + 1) * 64 ^ ds.length :=
          ih (fun d' hd' => h d' (List.mem_cons_of_mem d hd')) _
      _ ≤ ((start + 1) * 64) * 64 ^ ds.length := Nat.mul_le_mul_right _ (by omega)
      _ = (start + 1) * 64 ^ (d :: ds).length := by
        rw [List.length_cons, Nat.pow_succ, Nat.mul_assoc, Nat.mul_comm 64]

theorem le_placesValue (start : Nat) (ds : List Nat) :
    start * 64 ^ ds.length ≤ placesValue start ds := by
  unfold placesValue
  induction ds generalizing start with
  | nil => simp
  | cons d ds ih =>
    calc start * 64 ^ (d :: ds).length = (start * 64) * 64 ^ ds.length := by
          rw [List.length_cons, Nat.pow_succ, Nat.mul_assoc, Nat.mul_comm 64]
      _ ≤ (start * 64 + d) * 64 ^ ds.length := Nat.mul_le_mul_right _ (by omega)
      _ ≤ ds.foldl (fun value d => value * 64 + d) (start * 64 + d) := ih _

theorem places_placesValue_six {ds : List Nat} (hlength : ds.length = 6) (h : ∀ d ∈ ds, d < 64) :
    places (placesValue 0 ds) = ds.dropWhile (· == 0) := by
  match ds, hlength with
  | [a, b, c, d, e, f], _ =>
    simp only [List.mem_cons, List.not_mem_nil, or_false, forall_eq_or_imp, forall_eq] at h
    obtain ⟨ha, hb, hc, hd, he, hf⟩ := h
    unfold places placesValue
    simp only [List.foldl_cons, List.foldl_nil]
    refine congrArg (List.dropWhile _) ?_
    simp only [List.cons.injEq, and_true]
    omega

/-- Up to six digits are the places of their value, but for the zeros before them. -/
theorem places_placesValue {ds : List Nat} (hlength : ds.length ≤ 6) (h : ∀ d ∈ ds, d < 64) :
    places (placesValue 0 ds) = ds.dropWhile (· == 0) := by
  let zeros := List.replicate (6 - ds.length) 0
  have hzeros : ∀ d ∈ zeros, (d == 0) = true := by simp [zeros]
  have hdrop : (zeros ++ ds).dropWhile (· == 0) = ds.dropWhile (· == 0) :=
    List.dropWhile_append_of_pos hzeros
  have hvalue : placesValue 0 (zeros ++ ds) = placesValue 0 ds := by
    rw [← placesValue_dropWhile, hdrop, placesValue_dropWhile]
  have hsix : (zeros ++ ds).length = 6 := by
    simp only [zeros, List.length_append, List.length_replicate]
    omega
  have hlt : ∀ d ∈ zeros ++ ds, d < 64 := by
    intro d hd
    rcases List.mem_append.mp hd with hd | hd
    · have := beq_iff_eq.mp (hzeros d hd)
      omega
    · exact h d hd
  rw [← hvalue, places_placesValue_six hsix hlt, hdrop]

theorem head?_places_ne (n : Nat) : (places n).head? ≠ some 0 := by
  intro hhead
  have hstop := List.head?_dropWhile_not (fun d : Nat => d == 0)
    [n / 0x40000000 % 64, n / 0x1000000 % 64, n / 0x40000 % 64, n / 0x1000 % 64, n / 64 % 64,
      n % 64]
  unfold places at hhead
  simp only at hhead
  rw [hhead] at hstop
  cases hstop

theorem length_places_le (n : Nat) : (places n).length ≤ 6 := by
  unfold places
  exact (List.dropWhile_suffix _).length_le

/-- A magnitude that needs a bracket has two places at least. -/
theorem one_lt_length_places {n : Nat} (hlow : 64 ≤ n) (hhigh : n < 0x1000000000) :
    1 < (places n).length := by
  have hlt : placesValue 0 (places n) < (0 + 1) * 64 ^ (places n).length :=
    placesValue_lt (fun d hd => lt_of_mem_places hd) 0
  rw [placesValue_places hhigh, Nat.zero_add, Nat.one_mul] at hlt
  rcases Nat.lt_or_ge 1 (places n).length with hmore | hone
  · exact hmore
  · have hpow : 64 ^ (places n).length ≤ 64 ^ 1 := Nat.pow_le_pow_right (by decide) hone
    omega

/-- Two digits without a zero before them need a bracket. -/
theorem le_placesValue_of_head? {ds : List Nat} (hlength : 2 ≤ ds.length)
    (hhead : ds.head? ≠ some 0) : 64 ≤ placesValue 0 ds := by
  cases ds with
  | nil => cases hlength
  | cons d ds =>
    have hd : 1 ≤ d := Nat.pos_of_ne_zero fun hd => hhead (hd ▸ rfl)
    have hpow : 64 ^ 1 ≤ 64 ^ ds.length := Nat.pow_le_pow_right (by decide) (by simpa using hlength)
    calc 64 ≤ 1 * 64 ^ ds.length := by omega
      _ ≤ d * 64 ^ ds.length := Nat.mul_le_mul_right _ hd
      _ ≤ placesValue d ds := le_placesValue d ds
      _ = placesValue 0 (d :: ds) := by simp [placesValue]

/-! ## Tokens -/

/-- The number that digits spell in the radix 64. -/
def spelled (cs : List Char) : Nat := placesValue 0 (cs.map digits.idxOf)

/-- Two to six digits, the first of which is no zero. -/
structure IsBracketed (cs : List Char) : Prop where
  allDigits : ∀ c ∈ cs, c ∈ digits
  least : 2 ≤ cs.length
  most : cs.length ≤ 6
  first : cs.head? ≠ some 'A'

/-- One delta as it is written: a digit or a bracket, and behind it a minus sign if the
delta is below zero. The smallest delta has no positive counterpart. -/
inductive IsToken : List Char → Prop
  | digit {c : Char} (hc : c ∈ digits) : IsToken [c]
  | minusDigit {c : Char} (hc : c ∈ digits) (hne : c ≠ 'A') : IsToken [c, '-']
  | bracket {cs : List Char} (h : IsBracketed cs) (hle : spelled cs ≤ 2 ^ 31 - 1) :
      IsToken ('[' :: cs ++ [']'])
  | minusBracket {cs : List Char} (h : IsBracketed cs) (hle : spelled cs ≤ 2 ^ 31) :
      IsToken ('[' :: cs ++ [']', '-'])

theorem idxOf_digit : ∀ value < 64, digits.idxOf (digit value) = value := by
  decide

theorem digit_idxOf {c : Char} (hc : c ∈ digits) :
    digit (digits.idxOf c) = c ∧ digits.idxOf c < 64 := by
  have hlt : digits.idxOf c < digits.length := List.idxOf_lt_length_of_mem hc
  refine ⟨?_, hlt⟩
  unfold digit
  rw [List.getD_eq_getElem?_getD, List.getElem?_eq_getElem hlt, List.getElem_idxOf hlt,
    Option.getD_some]

theorem digit_eq_zero : ∀ value < 64, digit value = 'A' → value = 0 := by
  decide

theorem spelled_map_digit {ds : List Nat} (h : ∀ d ∈ ds, d < 64) :
    spelled (ds.map digit) = placesValue 0 ds := by
  have hback : (ds.map digit).map digits.idxOf = ds := by
    rw [List.map_map]
    exact (List.map_congr_left fun d hd => idxOf_digit d (h d hd)).trans (List.map_id _)
  rw [spelled, hback]

/-- The places of a magnitude that needs a bracket stand in one. -/
theorem isBracketed_places {n : Nat} (hlow : 64 ≤ n) (hhigh : n < 0x1000000000) :
    IsBracketed ((places n).map digit) := by
  refine ⟨?_, ?_, ?_, ?_⟩
  · intro c hc
    obtain ⟨d, hd, rfl⟩ := List.mem_map.mp hc
    exact digit_mem_digits d (lt_of_mem_places hd)
  · rw [List.length_map]
    exact one_lt_length_places hlow hhigh
  · rw [List.length_map]
    exact length_places_le n
  · intro hfirst
    rw [List.head?_map, Option.map_eq_some_iff] at hfirst
    obtain ⟨d, hd, hzero⟩ := hfirst
    have hlt := lt_of_mem_places (List.mem_of_mem_head? hd)
    rw [digit_eq_zero d hlt hzero] at hd
    exact head?_places_ne n hd

/-- What stands in a bracket is the places of its number, which needs the bracket. -/
theorem IsBracketed.packMagnitude {cs : List Char} (h : IsBracketed cs) :
    packMagnitude (spelled cs) = '[' :: cs ++ [']'] ∧ 64 ≤ spelled cs := by
  obtain ⟨ds, rfl, hlt⟩ : ∃ ds : List Nat, ds.map digit = cs ∧ ∀ d ∈ ds, d < 64 := by
    refine ⟨cs.map digits.idxOf, ?_, ?_⟩
    · rw [List.map_map]
      exact (List.map_congr_left fun c hc => (digit_idxOf (h.allDigits c hc)).1).trans
        (List.map_id _)
    · intro d hd
      obtain ⟨c, hc, rfl⟩ := List.mem_map.mp hd
      exact (digit_idxOf (h.allDigits c hc)).2
  have hleast := h.least
  have hmost := h.most
  have hfirst := h.first
  rw [List.length_map] at hleast hmost
  have hhead : ds.head? ≠ some 0 := by
    intro hzero
    rw [List.head?_map, hzero] at hfirst
    exact hfirst rfl
  have hplaces : places (placesValue 0 ds) = ds := by
    rw [places_placesValue hmost hlt]
    cases ds with
    | nil => rfl
    | cons d ds =>
      have hd : d ≠ 0 := fun hd => hhead (hd ▸ rfl)
      simp [hd]
  have hlow := le_placesValue_of_head? hleast hhead
  rw [spelled_map_digit hlt, Delta.packMagnitude, if_neg (by omega), hplaces]
  exact ⟨rfl, hlow⟩

/-! ## Deltas -/

theorem packMagnitude_idxOf {c : Char} (hc : c ∈ digits) : packMagnitude (digits.idxOf c) = [c] := by
  obtain ⟨hdigit, hlt⟩ := digit_idxOf hc
  rw [packMagnitude, if_pos hlt, hdigit]

theorem packOne_ofInt {i : Int} (hlow : -2 ^ 31 ≤ i) (hhigh : i < 2 ^ 31) :
    packOne (.ofInt i) = packMagnitude i.natAbs ++ if i < 0 then ['-'] else [] := by
  have hvalue := Int32.toInt_ofInt_of_le hlow hhigh
  have hsign : Int32.ofInt i < 0 ↔ i < 0 := by
    rw [Int32.lt_iff_toInt_lt, hvalue]
    rfl
  simp only [packOne, hvalue, hsign]

theorem isToken_packOne (delta : Int32) : IsToken (packOne delta) := by
  have hlow := delta.minValue_le_toInt
  have hhigh := delta.toInt_lt
  have hmin : Int32.minValue.toInt = -2147483648 := rfl
  rw [hmin] at hlow
  have hone := packOne_ofInt hlow hhigh
  rw [Int32.ofInt_toInt] at hone
  rw [hone]
  generalize delta.toInt = i at hlow hhigh
  by_cases hsmall : i.natAbs < 64
  · rw [packMagnitude, if_pos hsmall]
    have hmem := digit_mem_digits i.natAbs hsmall
    split
    · refine .minusDigit hmem fun hzero => ?_
      have := digit_eq_zero i.natAbs hsmall hzero
      omega
    · exact .digit hmem
  · have hbracketed := isBracketed_places (n := i.natAbs) (by omega) (by omega)
    have hspelled : spelled ((places i.natAbs).map digit) = i.natAbs := by
      rw [spelled_map_digit fun d hd => lt_of_mem_places hd, placesValue_places (by omega)]
    rw [packMagnitude, if_neg hsmall]
    split
    · rw [List.append_assoc]
      exact .minusBracket hbracketed (by omega)
    · rw [List.append_nil]
      exact .bracket hbracketed (by omega)

theorem exists_packOne {token : List Char} (h : IsToken token) : ∃ delta, packOne delta = token := by
  cases h with
  | @digit c hc =>
    have hlt := (digit_idxOf hc).2
    refine ⟨.ofInt (digits.idxOf c), ?_⟩
    rw [packOne_ofInt (by omega) (by omega), Int.natAbs_natCast, packMagnitude_idxOf hc,
      if_neg (by omega)]
    rfl
  | @minusDigit c hc hne =>
    have hlt := (digit_idxOf hc).2
    have hpos : digits.idxOf c ≠ 0 := by
      intro hzero
      have hback := (digit_idxOf hc).1
      rw [hzero] at hback
      exact hne hback.symm
    refine ⟨.ofInt (-digits.idxOf c), ?_⟩
    rw [packOne_ofInt (by omega) (by omega), Int.natAbs_neg, Int.natAbs_natCast,
      packMagnitude_idxOf hc, if_pos (by omega)]
    rfl
  | @bracket cs hbracketed hle =>
    obtain ⟨hpack, -⟩ := hbracketed.packMagnitude
    refine ⟨.ofInt (spelled cs), ?_⟩
    rw [packOne_ofInt (by omega) (by omega), Int.natAbs_natCast, hpack, if_neg (by omega),
      List.append_nil]
  | @minusBracket cs hbracketed hle =>
    obtain ⟨hpack, hlow⟩ := hbracketed.packMagnitude
    refine ⟨.ofInt (-spelled cs), ?_⟩
    rw [packOne_ofInt (by omega) (by omega), Int.natAbs_neg, Int.natAbs_natCast, hpack,
      if_pos (by omega), List.append_assoc]
    rfl

theorem exists_map_packOne {tokens : List (List Char)} (h : ∀ token ∈ tokens, IsToken token) :
    ∃ deltas : List Int32, deltas.map packOne = tokens := by
  induction tokens with
  | nil => exact ⟨[], rfl⟩
  | cons token tokens ih =>
    obtain ⟨delta, rfl⟩ := exists_packOne (h token List.mem_cons_self)
    obtain ⟨deltas, rfl⟩ := ih fun token' htoken => h token' (List.mem_cons_of_mem _ htoken)
    exact ⟨delta :: deltas, rfl⟩

/-- A text comes back from its deltas just if it is a row of tokens. -/
theorem packing_undoes_unpacking_just_on_tokens (text : List Char) :
    pack (unpack text) = text ↔
      ∃ tokens : List (List Char), (∀ token ∈ tokens, IsToken token) ∧ text = tokens.flatten := by
  constructor
  · intro h
    refine ⟨(unpack text).map packOne, ?_, ?_⟩
    · intro token htoken
      obtain ⟨delta, -, rfl⟩ := List.mem_map.mp htoken
      exact isToken_packOne delta
    · rw [← List.flatMap_def]
      exact h.symm
  · rintro ⟨tokens, htokens, rfl⟩
    obtain ⟨deltas, rfl⟩ := exists_map_packOne htokens
    rw [← List.flatMap_def]
    exact congrArg pack (unpack_pack deltas)

end BinaryAtlas.Delta
