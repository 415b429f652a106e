-- The laws of the sizes of functions. The size of a function adds up its regions, one
-- by one. It counts the addresses that the function covers if no two regions share one,
-- but a region that ends before it starts covers nothing and still counts as one.
import BinaryAtlas.Proofs.LoadedFunctions
import Mathlib.Data.FinEnum
import Mathlib.Data.Set.Card
import Mathlib.Order.Interval.Finset.Nat

namespace BinaryAtlas

/-! ## One region -/

namespace Region

/-- The addresses of a region. -/
def covered (region : Region) : Set UInt32 := {address | region.contains address = true}

/-- The region ends before it starts. -/
def isBackward (region : Region) : Bool := region.last < region.first

theorem mem_covered {region : Region} {address : UInt32} :
    address ∈ region.covered ↔ region.first ≤ address ∧ address ≤ region.last := by
  simp [covered, contains]

/-- As numbers the addresses are all those from one end to the other. -/
theorem image_toNat_covered (region : Region) :
    UInt32.toNat '' region.covered = Set.Icc region.first.toNat region.last.toNat := by
  ext n
  constructor
  · rintro ⟨address, haddress, rfl⟩
    exact mem_covered.mp haddress
  · rintro ⟨hfirst, hlast⟩
    have hn : n < UInt32.size := Nat.lt_of_le_of_lt hlast region.last.toNat_lt
    refine ⟨UInt32.ofNatLT n hn, mem_covered.mpr ⟨?_, ?_⟩, UInt32.toNat_ofNatLT⟩
    · rwa [UInt32.le_iff_toNat_le, UInt32.toNat_ofNatLT]
    · rwa [UInt32.le_iff_toNat_le, UInt32.toNat_ofNatLT]

theorem ncard_covered (region : Region) :
    region.covered.ncard = region.last.toNat + 1 - region.first.toNat := by
  have hinjective : Function.Injective UInt32.toNat := fun _ _ => UInt32.toNat_inj.mp
  rw [← Set.ncard_image_of_injective _ hinjective, image_toNat_covered, ← Finset.coe_Icc,
    Set.ncard_coe_finset, Nat.card_Icc]

/-- The size is one too many for a backward region, and exact for every other one. -/
theorem size_eq (region : Region) :
    region.size = region.covered.ncard + if region.isBackward then 1 else 0 := by
  rw [size, ncard_covered]
  simp only [isBackward, decide_eq_true_eq, UInt32.lt_iff_toNat_lt]
  split <;> omega

/-- No address is in both regions. -/
def Apart (a b : Region) : Prop := ∀ address, ¬(address ∈ a.covered ∧ address ∈ b.covered)

/-- Regions are apart if one of them covers nothing or ends before the other starts. All
others share the first address of one of them. -/
theorem apart_iff {a b : Region} :
    a.Apart b ↔ a.last < a.first ∨ b.last < b.first ∨ a.last < b.first ∨ b.last < a.first := by
  simp only [Apart, mem_covered, UInt32.lt_iff_toNat_lt, UInt32.le_iff_toNat_le]
  constructor
  · intro hapart
    have ha := hapart a.first
    have hb := hapart b.first
    omega
  · intro hends address hboth
    omega

instance (a b : Region) : Decidable (a.Apart b) := decidable_of_iff' _ apart_iff

end Region

/-! ## Many regions -/

namespace Region

/-- The addresses that any of the regions covers. -/
def coveredBy (regions : List Region) : Set UInt32 :=
  {address | regions.any (·.contains address) = true}

theorem coveredBy_cons (region : Region) (regions : List Region) :
    coveredBy (region :: regions) = region.covered ∪ coveredBy regions := by
  ext address
  simp [coveredBy, covered]

theorem not_mem_coveredBy {region : Region} {regions : List Region}
    (h : ∀ other ∈ regions, region.Apart other) {address : UInt32}
    (haddress : address ∈ region.covered) : address ∉ coveredBy regions := by
  intro hcovered
  obtain ⟨other, hother, hcontains⟩ := List.any_eq_true.mp hcovered
  exact h other hother address ⟨haddress, hcontains⟩

/-- The sizes of regions that share no address. -/
theorem sum_size_eq {regions : List Region} (h : regions.Pairwise Apart) :
    (regions.map size).sum = (coveredBy regions).ncard + regions.countP isBackward := by
  induction regions with
  | nil => simp [coveredBy]
  | cons region regions ih =>
    obtain ⟨hfirst, hrest⟩ := List.pairwise_cons.mp h
    -- The first region shares nothing with all others together, so the numbers add up.
    have hunion : (coveredBy (region :: regions)).ncard =
        region.covered.ncard + (coveredBy regions).ncard := by
      rw [coveredBy_cons]
      exact Set.ncard_union_eq (Set.disjoint_left.mpr fun _ => not_mem_coveredBy hfirst)
    rw [List.map_cons, List.sum_cons, ih hrest, size_eq, hunion, List.countP_cons]
    omega

end Region

/-! ## Functions -/

namespace Routine

/-- The addresses of a function. -/
def covered (routine : Routine) : Set UInt32 := {address | routine.contains address = true}

/-- No two regions of the function share an address. -/
def HasDisjointRegions (routine : Routine) : Prop := routine.regions.Pairwise Region.Apart

instance (routine : Routine) : Decidable routine.HasDisjointRegions :=
  inferInstanceAs (Decidable (routine.regions.Pairwise Region.Apart))

theorem size_eq_sum (routine : Routine) : routine.size = (routine.regions.map Region.size).sum := by
  rw [List.sum_eq_foldl, List.foldl_map, size]

theorem size_eq {routine : Routine} (h : routine.HasDisjointRegions) :
    routine.size = routine.covered.ncard + routine.regions.countP Region.isBackward := by
  rw [size_eq_sum, Region.sum_size_eq h]
  rfl

end Routine

/-- A function without shared addresses between its regions has for its size the number of
addresses that it covers, and one more for each region that ends before it starts. -/
theorem a_size_counts_covered_addresses_and_backward_regions {routine : Routine}
    (h : routine.HasDisjointRegions) :
    routine.size = routine.covered.ncard + routine.regions.countP Region.isBackward ∧
      (routine.size = routine.covered.ncard ↔
        ∀ region ∈ routine.regions, region.first ≤ region.last) := by
  refine ⟨Routine.size_eq h, ?_⟩
  rw [Routine.size_eq h, Nat.add_eq_left, List.countP_eq_zero]
  simp [Region.isBackward]

/-- A function in two parts, and a region between their ends that ends before it starts. -/
def splitRoutine : Routine :=
  { key := .root "split", address := 0x401000
    regions := [⟨0x401000, 0x40100F⟩, ⟨0x40100F, 0x401000⟩, ⟨0xFFFFFFFF, 0xFFFFFFFF⟩] }

theorem a_split_function_covers_one_address_less_than_its_size :
    splitRoutine.HasDisjointRegions ∧ splitRoutine.size = 18 ∧ splitRoutine.covered.ncard = 17 := by
  have hdisjoint : splitRoutine.HasDisjointRegions := by decide
  have hsize : splitRoutine.size = 18 := by decide
  have hcounts := (a_size_counts_covered_addresses_and_backward_regions hdisjoint).1
  have hbackward : splitRoutine.regions.countP Region.isBackward = 1 := by decide
  refine ⟨hdisjoint, hsize, ?_⟩
  omega

/-- A function with one region, which ends before it starts. -/
def turned : Export :=
  { records := [(functionAt "00401000" "" "run").withChild (addressRange "0040100f" "00401000")] }

/-- The function covers nothing, and its size is 1. -/
theorem a_function_that_covers_nothing_has_a_size : ∃ program routine,
    Loader.load {} turned none = .ok program ∧ routine ∈ program.routines ∧
      routine.HasDisjointRegions ∧ routine.size = 1 ∧ routine.covered.ncard = 0 := by
  obtain ⟨program, h⟩ := exists_ok (x := Loader.load {} turned none) (by decide +kernel)
  have hregions : program.routines.map Routine.regions = [[⟨0x40100F, 0x401000⟩]] := by
    have hload : (Loader.load {} turned none).toOption.map
        (fun program => program.routines.map Routine.regions) =
          some [[⟨0x40100F, 0x401000⟩]] := by
      decide +kernel
    rw [h] at hload
    exact Option.some.inj hload
  obtain ⟨routine, others, hroutines, hregion, -⟩ := List.map_eq_cons_iff.mp hregions
  have hdisjoint : routine.HasDisjointRegions := by
    rw [Routine.HasDisjointRegions, hregion]
    exact List.pairwise_singleton _ _
  have hsize : routine.size = 1 := by
    rw [Routine.size, hregion]
    rfl
  have hbackward : routine.regions.countP Region.isBackward = 1 := by
    rw [hregion]
    decide
  have hcounts := Routine.size_eq hdisjoint
  refine ⟨program, routine, h, hroutines ▸ List.mem_cons_self, hdisjoint, hsize, ?_⟩
  omega

end BinaryAtlas
