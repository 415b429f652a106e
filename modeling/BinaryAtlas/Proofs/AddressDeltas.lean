-- The laws of the deltas between addresses. Each address is the sum of the base and of
-- all deltas up to it, each delta is the difference of two neighbours, and both are taken
-- modulo the word size. So the addresses tell the deltas, and the deltas the addresses.
import BinaryAtlas.Proofs.Deltas
import Mathlib.Algebra.Group.Nat.Defs
import Mathlib.Algebra.Ring.Int.Defs
import Mathlib.Data.List.Infix

namespace BinaryAtlas.Delta

/-! ## One step -/

theorem sub_shift (last : UInt32) (delta : Int32) : (shift last delta - last).toInt32 = delta := by
  rw [shift, UInt32.add_comm, UInt32.add_sub_cancel, Int32.toInt32_toUInt32]

theorem toInt_eq_bmod (delta : Int32) :
    delta.toInt = (delta.toUInt32.toNat : Int).bmod (2 ^ 32) := by
  rw [← Int32.toInt_toBitVec, BitVec.toInt_eq_toNat_bmod, Int32.toNat_toBitVec]

/-- A step forward is a sum of whole numbers, modulo the word size. -/
theorem toNat_shift (last : UInt32) (delta : Int32) :
    ((shift last delta).toNat : Int) = (last.toNat + delta.toInt) % 2 ^ 32 := by
  have hadd : ((shift last delta).toNat : Int) =
      (last.toNat + delta.toUInt32.toNat) % 2 ^ 32 := by
    rw [shift, UInt32.toNat_add, Int.natCast_emod, Int.natCast_add]
    rfl
  have hsigned : delta.toInt % 2 ^ 32 = (delta.toUInt32.toNat : Int) % 2 ^ 32 := by
    rw [toInt_eq_bmod]
    exact Int.bmod_emod
  rw [hadd, Int.add_emod, ← hsigned, ← Int.add_emod]

/-- A step back is a difference of whole numbers; its remainder is the one nearest to zero. -/
theorem toInt_sub (last address : UInt32) :
    (address - last).toInt32.toInt = ((address.toNat : Int) - last.toNat).bmod (2 ^ 32) := by
  rw [UInt32.toInt32_sub, Int32.toInt_sub, toInt_eq_bmod, toInt_eq_bmod,
    UInt32.toUInt32_toInt32, UInt32.toUInt32_toInt32, Int.bmod_sub_bmod, Int.sub_bmod_bmod]

/-! ## Sequences -/

@[simp]
theorem ofAddresses_toAddresses (last : UInt32) (deltas : List Int32) :
    ofAddresses last (toAddresses last deltas) = deltas := by
  induction deltas generalizing last with
  | nil => rfl
  | cons delta deltas ih => rw [toAddresses, ofAddresses, sub_shift, ih]

/-- The sum of deltas, as a whole number. -/
def total (deltas : List Int32) : Int := (deltas.map Int32.toInt).sum

@[simp]
theorem total_nil : total [] = 0 := rfl

@[simp]
theorem total_cons (delta : Int32) (deltas : List Int32) :
    total (delta :: deltas) = delta.toInt + total deltas := by
  rw [total, List.map_cons, List.sum_cons, total]

theorem tail_inits_cons {α : Type} (x : α) (xs : List α) :
    (x :: xs).inits.tail = [x] :: xs.inits.tail.map (x :: ·) := by
  cases xs <;> simp

/-- An address is told by the sum of all deltas up to it; the words on the way may wrap
around as they like. -/
theorem map_toNat_toAddresses (base : UInt32) (deltas : List Int32) :
    (toAddresses base deltas).map (fun address => (address.toNat : Int)) =
      deltas.inits.tail.map fun upTo => (base.toNat + total upTo) % 2 ^ 32 := by
  induction deltas generalizing base with
  | nil => rfl
  | cons delta deltas ih =>
    have hfirst : ((shift base delta).toNat : Int) = (base.toNat + total [delta]) % 2 ^ 32 := by
      rw [toNat_shift, total_cons, total_nil, Int.add_zero]
    have hlater (upTo : List Int32) :
        (((shift base delta).toNat : Int) + total upTo) % 2 ^ 32 =
          (base.toNat + total (delta :: upTo)) % 2 ^ 32 := by
      rw [toNat_shift, Int.emod_add_emod, total_cons, Int.add_assoc]
    -- The sums from the next address are the sums from the base with one delta more.
    rw [toAddresses, List.map_cons, ih, tail_inits_cons, List.map_cons, List.map_map]
    exact congrArg₂ List.cons hfirst (List.map_congr_left fun upTo _ => hlater upTo)

/-- A delta is told by its address and the one before. -/
theorem map_toInt_ofAddresses (base : UInt32) (addresses : List UInt32) :
    (ofAddresses base addresses).map Int32.toInt =
      List.zipWith (fun last address => ((address.toNat : Int) - last.toNat).bmod (2 ^ 32))
        (base :: addresses) addresses := by
  induction addresses generalizing base with
  | nil => rfl
  | cons address addresses ih =>
    rw [ofAddresses, List.map_cons, List.zipWith_cons_cons, toInt_sub, ih]

/-- Deltas and addresses undo each other, from any base and in both directions. Each
address is the base and all deltas up to it, modulo the word size; each delta is the
difference to the address before, modulo the word size and with a sign. -/
theorem deltas_and_addresses_undo_each_other (base : UInt32) :
    (∀ addresses, toAddresses base (ofAddresses base addresses) = addresses) ∧
    (∀ deltas, ofAddresses base (toAddresses base deltas) = deltas) ∧
    (∀ deltas, (toAddresses base deltas).map (fun address => (address.toNat : Int)) =
      deltas.inits.tail.map fun upTo => (base.toNat + total upTo) % 2 ^ 32) ∧
    ∀ addresses, (ofAddresses base addresses).map Int32.toInt =
      List.zipWith (fun last address => ((address.toNat : Int) - last.toNat).bmod (2 ^ 32))
        (base :: addresses) addresses :=
  ⟨toAddresses_ofAddresses base, ofAddresses_toAddresses base, map_toNat_toAddresses base,
    map_toInt_ofAddresses base⟩

/-- Two steps over half of all addresses, the second one past the end, are the same delta. -/
example : ofAddresses 0 [0x80000000, 0, 0xFFFFFFFF] = [Int32.minValue, Int32.minValue, -1] := by
  decide

end BinaryAtlas.Delta
