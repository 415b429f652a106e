-- The laws of packed deltas. A packed sequence unpacks to itself, the smallest
-- delta included, whatever else is put between its characters. The deltas
-- between addresses lead back to them; sums and differences are taken modulo
-- the word size.
import BinaryAtlas.Dump.Delta

namespace BinaryAtlas.Delta

/-! ## Digits -/

theorem digit?_digit : ∀ value < 64, digit? (digit value) = some value := by
  decide

/-- A digit opens nothing, closes nothing and negates nothing. -/
theorem digit_ne_mark : ∀ value < 64,
    digit value ≠ '-' ∧ digit value ≠ '[' ∧ digit value ≠ ']' := by
  decide

/-- The value of digits of radix 64 after those of value `start`. -/
def placesValue (start : Nat) (ds : List Nat) : Nat :=
  ds.foldl (fun value d => value * 64 + d) start

theorem placesValue_dropWhile (ds : List Nat) :
    placesValue 0 (ds.dropWhile (· == 0)) = placesValue 0 ds := by
  induction ds with
  | nil => rfl
  | cons d ds ih =>
    by_cases hd : d = 0
    · subst hd
      simpa [placesValue] using ih
    · simp [hd]

/-- Six places are enough for a word. -/
theorem placesValue_places {n : Nat} (h : n < 0x1000000000) : placesValue 0 (places n) = n := by
  unfold places
  rw [placesValue_dropWhile]
  simp only [placesValue, List.foldl_cons, List.foldl_nil]
  omega

theorem lt_of_mem_places {n d : Nat} (h : d ∈ places n) : d < 64 := by
  have hmem := (List.dropWhile_sublist _).mem h
  simp only [List.mem_cons, List.not_mem_nil, or_false] at hmem
  omega

/-! ## One character -/

namespace Reader

theorem step_digit {value : Nat} (h : value < 64) (deltas : List Int32) :
    step { deltas } (digit value) = { deltas := Int32.ofNat value :: deltas } := by
  obtain ⟨hminus, hopen, -⟩ := digit_ne_mark value h
  unfold step
  rw [if_neg hminus, if_neg hopen, digit?_digit value h]

theorem step_inner_digit {value : Nat} (h : value < 64) (inner : Int32) (deltas : List Int32) :
    step { bracket := some inner, deltas } (digit value) =
      { bracket := some (inner * 64 + Int32.ofNat value), deltas } := by
  obtain ⟨hminus, hopen, -⟩ := digit_ne_mark value h
  unfold step
  rw [if_neg hminus, if_neg hopen, digit?_digit value h]

/-- Digits in a bracket build up a value, modulo the word size. -/
theorem foldl_inner_digits (start : Nat) (deltas : List Int32) :
    ∀ ds : List Nat, (∀ d ∈ ds, d < 64) →
      (ds.map digit).foldl step { bracket := some (Int32.ofNat start), deltas } =
        { bracket := some (Int32.ofNat (placesValue start ds)), deltas } := by
  intro ds
  induction ds generalizing start with
  | nil => exact fun _ => rfl
  | cons d ds ih =>
    intro h
    have hvalue : Int32.ofNat start * 64 + Int32.ofNat d = Int32.ofNat (start * 64 + d) := by
      rw [Int32.ofNat_add, Int32.ofNat_mul]
      rfl
    rw [List.map_cons, List.foldl_cons, step_inner_digit (h d List.mem_cons_self), hvalue,
      ih _ fun d' hd' => h d' (List.mem_cons_of_mem d hd')]
    rfl

theorem foldl_packMagnitude {n : Nat} (h : n < 0x1000000000) (deltas : List Int32) :
    (packMagnitude n).foldl step { deltas } = { deltas := Int32.ofNat n :: deltas } := by
  unfold packMagnitude
  split
  · rename_i hsmall
    exact step_digit hsmall deltas
  · have hinner := foldl_inner_digits 0 deltas (places n) fun d => lt_of_mem_places
    rw [placesValue_places h] at hinner
    have hopen : step { deltas } '[' = { bracket := some (Int32.ofNat 0), deltas } := rfl
    have hclose (value : Int32) :
        step { bracket := some value, deltas } ']' = { deltas := value :: deltas } := rfl
    rw [List.cons_append, List.foldl_cons, List.foldl_append, hopen, hinner, List.foldl_cons,
      hclose, List.foldl_nil]

/-- The sign comes last. The magnitude of the smallest delta wraps around to
that delta, and so does its negation. -/
theorem foldl_packOne (delta : Int32) (deltas : List Int32) :
    (packOne delta).foldl step { deltas } = { deltas := delta :: deltas } := by
  have hlow := delta.minValue_le_toInt
  have hhigh := delta.toInt_lt
  have hmin : Int32.minValue.toInt = -2147483648 := rfl
  have hbound : delta.toInt.natAbs < 0x1000000000 := by
    rw [hmin] at hlow
    omega
  unfold packOne
  rw [List.foldl_append, foldl_packMagnitude hbound, ← Int32.ofInt_eq_ofNat]
  have hsign : delta < 0 ↔ delta.toInt < 0 := Int32.lt_iff_toInt_lt
  split
  · rename_i hneg
    have habs : (delta.toInt.natAbs : Int) = -delta.toInt := by
      have := hsign.mp hneg
      omega
    have hminus (last : Int32) :
        step { deltas := last :: deltas } '-' = { deltas := -last :: deltas } := rfl
    rw [habs, List.foldl_cons, List.foldl_nil, hminus, Int32.ofInt_neg, Int32.ofInt_toInt,
      Int32.neg_neg]
  · rename_i hnonneg
    have habs : (delta.toInt.natAbs : Int) = delta.toInt := by
      have := mt hsign.mpr hnonneg
      omega
    rw [habs, List.foldl_nil, Int32.ofInt_toInt]

theorem foldl_pack (deltas before : List Int32) :
    (pack deltas).foldl step { deltas := before } = { deltas := deltas.reverse ++ before } := by
  unfold pack
  induction deltas generalizing before with
  | nil => rfl
  | cons delta deltas ih =>
    rw [List.flatMap_cons, List.foldl_append, foldl_packOne, ih, List.reverse_cons,
      List.append_assoc, List.singleton_append]

end Reader

/-! ## Sequences -/

@[simp]
theorem unpack_pack (deltas : List Int32) : unpack (pack deltas) = deltas := by
  unfold unpack
  rw [Reader.foldl_pack, List.append_nil, List.reverse_reverse]

/-- The characters of packed text. -/
def packedChars : List Char := '[' :: ']' :: '-' :: digits

theorem digit_mem_digits : ∀ value < 64, digit value ∈ digits := by
  decide

theorem mem_packedChars_of_mem_pack {c : Char} {deltas : List Int32} (h : c ∈ pack deltas) :
    c ∈ packedChars := by
  unfold pack at h
  obtain ⟨delta, -, hc⟩ := List.mem_flatMap.mp h
  unfold packOne packMagnitude at hc
  simp only [packedChars, List.mem_cons]
  rcases List.mem_append.mp hc with hc | hc
  · split at hc
    · rename_i hsmall
      rw [List.mem_singleton.mp hc]
      exact .inr (.inr (.inr (digit_mem_digits _ hsmall)))
    · rw [List.cons_append, List.mem_cons, List.mem_append, List.mem_map, List.mem_singleton] at hc
      rcases hc with hc | ⟨d, hd, rfl⟩ | hc
      · exact .inl hc
      · exact .inr (.inr (.inr (digit_mem_digits d (lt_of_mem_places hd))))
      · exact .inr (.inl hc)
  · split at hc
    · exact .inr (.inr (.inl (List.mem_singleton.mp hc)))
    · cases hc

/-! ## Padding -/

/-- Text with characters put in, anywhere and any number of them. A digit, a
bracket or a minus sign is not put in. -/
inductive Padded : List Char → List Char → Prop
  | nil : Padded [] []
  | keep {packed text : List Char} (c : Char) (h : Padded packed text) :
      Padded (c :: packed) (c :: text)
  | padding {packed text : List Char} {c : Char} (hc : c ∉ packedChars) (h : Padded packed text) :
      Padded packed (c :: text)

/-- Without its padding the text is as it was before. -/
theorem padded_of_filter (text : List Char) :
    Padded (text.filter (packedChars.contains ·)) text := by
  induction text with
  | nil => exact .nil
  | cons c text ih =>
    by_cases hc : c ∈ packedChars
    · rw [List.filter_cons_of_pos (by simpa using hc)]
      exact .keep c ih
    · rw [List.filter_cons_of_neg (by simpa using hc)]
      exact .padding hc ih

namespace Reader

/-- Padding changes nothing, inside a bracket and outside. -/
theorem step_padding (r : Reader) {c : Char} (hc : c ∉ packedChars) : r.step c = r := by
  simp only [packedChars, List.mem_cons, not_or] at hc
  obtain ⟨hopen, hclose, hminus, hdigit⟩ := hc
  have hnone : digit? c = none := List.idxOf?_eq_none_iff.mpr hdigit
  unfold step
  rw [if_neg hminus, if_neg hopen, hnone]
  split
  · contradiction
  · rw [if_neg hclose]
  · contradiction
  · rfl

theorem foldl_padded {packed text : List Char} (h : Padded packed text) (r : Reader) :
    text.foldl step r = packed.foldl step r := by
  induction h generalizing r with
  | nil => rfl
  | keep c _ ih => exact ih (r.step c)
  | padding hc _ ih => rw [List.foldl_cons, step_padding r hc, ih]

end Reader

/-- Packed deltas unpack to themselves through any padding, the smallest and
the largest delta included. -/
theorem padding_does_not_change_deltas {deltas : List Int32} {text : List Char}
    (h : Padded (pack deltas) text) : unpack text = deltas := by
  have hread := Reader.foldl_padded h {}
  rw [unpack, hread]
  exact unpack_pack deltas

/-- Blanks and marks between all characters of the smallest delta, and inside
the brackets of the largest. -/
def paddedExtremes : List Char := "?[ C\tA A A A A ] -D!-(=[B/// //]é".toList

theorem padding_inside_the_brackets_of_the_extremes :
    Padded (pack [Int32.minValue, -3, Int32.maxValue]) paddedExtremes ∧
      unpack paddedExtremes = [Int32.minValue, -3, Int32.maxValue] := by
  have hpadded : Padded (pack [Int32.minValue, -3, Int32.maxValue]) paddedExtremes := by
    have hfilter : paddedExtremes.filter (packedChars.contains ·) =
        pack [Int32.minValue, -3, Int32.maxValue] := by decide +kernel
    rw [← hfilter]
    exact padded_of_filter paddedExtremes
  exact ⟨hpadded, padding_does_not_change_deltas hpadded⟩

/-! ## Addresses -/

theorem shift_sub (last address : UInt32) : shift last (address - last).toInt32 = address := by
  unfold shift
  rw [UInt32.toUInt32_toInt32, UInt32.add_comm, UInt32.sub_add_cancel]

@[simp]
theorem toAddresses_ofAddresses (last : UInt32) (addresses : List UInt32) :
    toAddresses last (ofAddresses last addresses) = addresses := by
  induction addresses generalizing last with
  | nil => rfl
  | cons address addresses ih => rw [ofAddresses, toAddresses, shift_sub, ih]

end BinaryAtlas.Delta
