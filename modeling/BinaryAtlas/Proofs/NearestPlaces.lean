-- The laws of the nearest item. In ascending items the search finds the last one that
-- does not lie above the address. The symbols and the functions of a loaded program
-- ascend, so the search finds what is nearest among them.
import BinaryAtlas.Nearest
import BinaryAtlas.Proofs.LoadedFunctions

namespace BinaryAtlas

/-! ## The search -/

section

variable {addresses : Array UInt32} {address : UInt32}

theorem getD_le_getD (hsorted : addresses.toList.Pairwise (· ≤ ·)) {a b : Nat} (hab : a ≤ b)
    (hb : b < addresses.size) : addresses.getD a 0 ≤ addresses.getD b 0 := by
  have ha : a < addresses.size := Nat.lt_of_le_of_lt hab hb
  rw [Array.getD_eq_getD_getElem?, Array.getD_eq_getD_getElem?, Array.getElem?_eq_getElem ha,
    Array.getElem?_eq_getElem hb, Option.getD_some, Option.getD_some]
  rcases Nat.lt_or_eq_of_le hab with hlt | rfl
  · exact List.pairwise_iff_getElem.mp hsorted a b ha hb hlt
  · exact UInt32.le_refl _

/-- The search still looks for the place among the `size` places from `base` on: the
item at `base` does not lie above the address, unless `base` is the first place of all,
and the items behind them do. -/
structure Encloses (addresses : Array UInt32) (address : UInt32) (base size : Nat) : Prop where
  inside : base + size ≤ addresses.size
  nonempty : 0 < size
  low : base = 0 ∨ addresses.getD base 0 ≤ address
  high : ∀ place, base + size ≤ place → place < addresses.size → address < addresses.getD place 0

/-- Halving keeps the place among those that are left: the item in the middle tells
which half it is in. -/
theorem Encloses.halved {base size : Nat} (h : Encloses addresses address base size)
    (hsorted : addresses.toList.Pairwise (· ≤ ·)) (hmore : 1 < size) :
    Encloses addresses address
      (if addresses.getD (base + size / 2) 0 ≤ address then base + size / 2 else base)
      (size - size / 2) := by
  have hinside := h.inside
  split
  · rename_i hle
    refine ⟨by omega, by omega, .inr hle, ?_⟩
    intro place hplace
    exact h.high place (by omega)
  · rename_i hgt
    refine ⟨by omega, by omega, h.low, ?_⟩
    intro place hplace hlt
    exact UInt32.lt_of_lt_of_le (UInt32.not_le.mp hgt) (getD_le_getD hsorted (by omega) hlt)

theorem encloses_searchFrom (hsorted : addresses.toList.Pairwise (· ≤ ·)) {base size : Nat}
    (h : Encloses addresses address base size) :
    Encloses addresses address (searchFrom addresses address base size) 1 := by
  fun_induction searchFrom addresses address base size with
  | case1 base size hmore middle next ih => exact ih (h.halved hsorted hmore)
  | case2 base size hone =>
    obtain rfl : size = 1 := by
      have := h.nonempty
      omega
    exact h

/-- The place is that of the last item at or below the address. -/
structure IsLastAt (addresses : Array UInt32) (address : UInt32) (place : Nat) : Prop where
  inside : place < addresses.size
  low : addresses.getD place 0 ≤ address
  high : ∀ later, place < later → later < addresses.size → address < addresses.getD later 0

/-- The search finds the last item at or below the address, if there is one. -/
theorem nearest?_cases (hsorted : addresses.toList.Pairwise (· ≤ ·)) (address : UInt32) :
    (nearest? addresses address = none ∧
      ∀ place < addresses.size, address < addresses.getD place 0) ∨
    ∃ place, nearest? addresses address = some place ∧ IsLastAt addresses address place := by
  rcases Nat.eq_zero_or_pos addresses.size with hempty | hpos
  · refine .inl ⟨?_, fun place hplace => by omega⟩
    simp [nearest?, Array.eq_empty_of_size_eq_zero hempty]
  · have h : Encloses addresses address (searchFrom addresses address 0 addresses.size) 1 :=
      encloses_searchFrom hsorted ⟨by omega, hpos, .inl rfl, fun place hplace hlt => by omega⟩
    generalize hplace : searchFrom addresses address 0 addresses.size = place at h
    have hinside : place < addresses.size := h.inside
    have hnearest : nearest? addresses address =
        if addresses.getD place 0 ≤ address then some place else none := by
      simp [nearest?, hplace, Array.getD_eq_getD_getElem?, hinside]
    by_cases hle : addresses.getD place 0 ≤ address
    · rw [hnearest, if_pos hle]
      exact .inr ⟨place, rfl, hinside, hle, fun later hlater => h.high later (by omega)⟩
    · rw [hnearest, if_neg hle]
      refine .inl ⟨rfl, fun later hlater => ?_⟩
      obtain rfl : place = 0 := h.low.resolve_right hle
      rcases Nat.eq_zero_or_pos later with rfl | hpos'
      · exact UInt32.not_le.mp hle
      · exact h.high later (by omega) hlater

end

/-! ## The nearest item -/

section

variable {Item : Type} {addressOf : Item → UInt32} {items : List Item} {address : UInt32}

/-- The item at the place that the search finds. -/
def nearestIn? (addressOf : Item → UInt32) (items : List Item) (address : UInt32) : Option Item :=
  (nearest? (items.map addressOf).toArray address).bind fun place => items[place]?

variable (addressOf) in
theorem getD_addresses {place : Nat} {item : Item} (h : items[place]? = some item) :
    (items.map addressOf).toArray.getD place 0 = addressOf item := by
  simp [Array.getD_eq_getD_getElem?, h]

theorem nearestIn?_cases (hsorted : items.Pairwise fun a b => addressOf a ≤ addressOf b)
    (address : UInt32) :
    (nearestIn? addressOf items address = none ∧ ∀ item ∈ items, address < addressOf item) ∨
    ∃ before item after, items = before ++ item :: after ∧
      nearestIn? addressOf items address = some item ∧
      addressOf item ≤ address ∧ ∀ later ∈ after, address < addressOf later := by
  have hpairwise : (items.map addressOf).toArray.toList.Pairwise (· ≤ ·) :=
    List.pairwise_map.mpr hsorted
  have hsize : (items.map addressOf).toArray.size = items.length := by simp
  unfold nearestIn?
  obtain ⟨hnone, habove⟩ | ⟨place, hplace, hlast⟩ := nearest?_cases hpairwise address
  · refine .inl ⟨by rw [hnone, Option.bind_none], fun item hitem => ?_⟩
    obtain ⟨place, hlt, rfl⟩ := List.mem_iff_getElem.mp hitem
    rw [← getD_addresses addressOf (List.getElem?_eq_getElem hlt)]
    exact habove place (hsize ▸ hlt)
  · have hlt : place < items.length := hsize ▸ hlast.inside
    have hitem := List.getElem?_eq_getElem hlt
    refine .inr ⟨items.take place, items[place], items.drop (place + 1), ?_, ?_, ?_, ?_⟩
    · rw [← List.drop_eq_getElem_cons hlt, List.take_append_drop]
    · rw [hplace, Option.bind_some, hitem]
    · rw [← getD_addresses addressOf hitem]
      exact hlast.low
    · intro later hlater
      obtain ⟨n, hn, rfl⟩ := List.mem_iff_getElem.mp hlater
      rw [List.length_drop] at hn
      have hbehind : place + 1 + n < items.length := by omega
      rw [List.getElem_drop, ← getD_addresses addressOf (List.getElem?_eq_getElem hbehind)]
      exact hlast.high _ (by omega) (hsize ▸ hbehind)

/-- Of the items with the greatest address at or below the given one, the item is the
last. -/
structure IsNearest (addressOf : Item → UInt32) (items : List Item) (address : UInt32)
    (item : Item) : Prop where
  below : addressOf item ≤ address
  greatest : ∀ other ∈ items, addressOf other ≤ address → addressOf other ≤ addressOf item
  last : ∃ before after, items = before ++ item :: after ∧
    ∀ later ∈ after, addressOf later ≠ addressOf item

namespace IsNearest

theorem mem {item : Item} (h : IsNearest addressOf items address item) : item ∈ items := by
  obtain ⟨before, after, rfl, -⟩ := h.last
  simp

theorem unique {a b : Item} (ha : IsNearest addressOf items address a)
    (hb : IsNearest addressOf items address b) : a = b := by
  have hsame : addressOf a = addressOf b :=
    UInt32.le_antisymm (hb.greatest a ha.mem ha.below) (ha.greatest b hb.mem hb.below)
  obtain ⟨before, after, hitems, hafter⟩ := ha.last
  obtain ⟨before', after', hitems', hafter'⟩ := hb.last
  rw [hitems, List.append_eq_append_iff] at hitems'
  rcases hitems' with ⟨between, -, hsplit⟩ | ⟨between, -, hsplit⟩
  · cases between with
    | nil => exact (List.cons.inj hsplit).1
    | cons _ between =>
      obtain ⟨-, rfl⟩ := List.cons.inj hsplit
      exact absurd hsame.symm (hafter b (by simp))
  · cases between with
    | nil => exact (List.cons.inj hsplit).1.symm
    | cons _ between =>
      obtain ⟨-, rfl⟩ := List.cons.inj hsplit
      exact absurd hsame (hafter' a (by simp))

theorem getLast?_filter {item : Item} (h : IsNearest addressOf items address item) :
    (items.filter (addressOf · == addressOf item)).getLast? = some item := by
  obtain ⟨before, after, rfl, hafter⟩ := h.last
  have hnone : after.filter (addressOf · == addressOf item) = [] := by
    simpa [List.filter_eq_nil_iff] using hafter
  simp [List.filter_append, hnone]

/-- Where no two items share an address, the nearest is the only one with its address. -/
theorem iff_of_strict (hsorted : items.Pairwise fun a b => addressOf a < addressOf b)
    {item : Item} : IsNearest addressOf items address item ↔
      item ∈ items ∧ addressOf item ≤ address ∧
        ∀ other ∈ items, addressOf other ≤ address → addressOf other ≤ addressOf item := by
  constructor
  · exact fun h => ⟨h.mem, h.below, h.greatest⟩
  · rintro ⟨hmem, hbelow, hgreatest⟩
    obtain ⟨before, after, rfl⟩ := List.append_of_mem hmem
    refine ⟨hbelow, hgreatest, before, after, rfl, fun later hlater => ?_⟩
    have hlt := (List.pairwise_cons.mp (List.pairwise_append.mp hsorted).2.1).1 later hlater
    exact (UInt32.ne_of_lt hlt).symm

end IsNearest

theorem nearestIn?_eq_none_iff (hsorted : items.Pairwise fun a b => addressOf a ≤ addressOf b) :
    nearestIn? addressOf items address = none ↔ ∀ item ∈ items, address < addressOf item := by
  obtain ⟨hnone, habove⟩ | ⟨before, item, after, rfl, hsome, hbelow, -⟩ :=
    nearestIn?_cases hsorted address
  · exact ⟨fun _ => habove, fun _ => hnone⟩
  · rw [hsome]
    refine ⟨nofun, fun habove => ?_⟩
    exact absurd hbelow (UInt32.not_le.mpr (habove item (by simp)))

theorem nearestIn?_eq_some_iff (hsorted : items.Pairwise fun a b => addressOf a ≤ addressOf b)
    {item : Item} :
    nearestIn? addressOf items address = some item ↔ IsNearest addressOf items address item := by
  obtain ⟨hnone, habove⟩ | ⟨before, found, after, hitems, hsome, hbelow, hafter⟩ :=
    nearestIn?_cases hsorted address
  · rw [hnone]
    refine ⟨nofun, fun h => ?_⟩
    exact absurd h.below (UInt32.not_le.mpr (habove item h.mem))
  · have hfound : IsNearest addressOf items address found := by
      subst hitems
      obtain ⟨-, hfrom, hto⟩ := List.pairwise_append.mp hsorted
      refine ⟨hbelow, fun other hother hle => ?_, before, after, rfl, fun later hlater => ?_⟩
      · rcases List.mem_append.mp hother with hother | hother
        · exact hto other hother found List.mem_cons_self
        · rcases List.mem_cons.mp hother with rfl | hother
          · exact UInt32.le_refl _
          · exact absurd hle (UInt32.not_le.mpr (hafter other hother))
      · exact (UInt32.ne_of_lt (UInt32.lt_of_le_of_lt hbelow (hafter later hlater))).symm
    rw [hsome, Option.some.injEq]
    exact ⟨fun h => h ▸ hfound, fun h => hfound.unique h⟩

end

/-! ## Loaded programs -/

/-- In a loaded program the nearest symbol is the one with the greatest address at or
below the given one, and the nearest function is the last of those with the greatest such
entry. Just if all of them lie above the address there is none. -/
theorem what_is_nearest_below_an_address_is_found {loader : Loader} {doc : Export}
    {trace : Option (List UInt8)} {program : Program} (h : loader.load doc trace = .ok program)
    (address : UInt32) :
    (program.symbolNear? address = none ↔ ∀ symbol ∈ program.symbols, address < symbol.address) ∧
    (∀ symbol, program.symbolNear? address = some symbol ↔
      symbol ∈ program.symbols ∧ symbol.address ≤ address ∧
        ∀ other ∈ program.symbols, other.address ≤ address → other.address ≤ symbol.address) ∧
    (program.routineNear? address = none ↔
      ∀ routine ∈ program.routines, address < routine.address) ∧
    ∀ routine, program.routineNear? address = some routine ↔
      IsNearest Routine.address program.routines address routine := by
  obtain ⟨declared, symbols, read, entered, hstages⟩ := Loader.load_stages h
  have hroutines := hstages.pairwise_routines
  have hstrict := hstages.places.pairwise_symbols
  have hsymbols : program.symbols.Pairwise fun a b => a.address ≤ b.address :=
    hstrict.imp UInt32.le_of_lt
  refine ⟨nearestIn?_eq_none_iff hsymbols, fun symbol => ?_, nearestIn?_eq_none_iff hroutines,
    fun routine => nearestIn?_eq_some_iff hroutines⟩
  rw [← IsNearest.iff_of_strict hstrict]
  exact nearestIn?_eq_some_iff hsymbols

/-- Functions at both ends of the addresses, but for the first address. Two of them are
entered at the last one. -/
def atBothEnds : Export :=
  { records := [functionAt "FFFFFFFF" "" "late", functionAt "00000001" "" "first",
      functionAt "FFFFFFFF" "" "later"] }

theorem the_later_function_is_nearest_at_the_last_address : ∃ program,
    Loader.load {} atBothEnds none = .ok program ∧ program.symbolNear? 0 = none ∧
    (∃ symbol, program.symbolNear? 0xFFFFFFFE = some symbol ∧ symbol.address = 1) ∧
    ∃ routine, program.routineNear? 0xFFFFFFFF = some routine ∧ routine.key = .root "later" := by
  obtain ⟨program, h⟩ := exists_ok (x := Loader.load {} atBothEnds none) (by decide +kernel)
  have hzero := what_is_nearest_below_an_address_is_found h 0
  have hmiddle := what_is_nearest_below_an_address_is_found h 0xFFFFFFFE
  have hlast := what_is_nearest_below_an_address_is_found h 0xFFFFFFFF
  have hsymbols : program.symbols.map Symbol.address = [1, 0xFFFFFFFF] := by
    have hload : (Loader.load {} atBothEnds none).toOption.map
        (fun program => program.symbols.map Symbol.address) = some [1, 0xFFFFFFFF] := by
      decide +kernel
    rw [h] at hload
    exact Option.some.inj hload
  obtain ⟨first, others, hfirst, haddress, hothers⟩ := List.map_eq_cons_iff.mp hsymbols
  obtain ⟨second, others, rfl, hsecond, hothers⟩ := List.map_eq_cons_iff.mp hothers
  obtain rfl := List.map_eq_nil_iff.mp hothers
  refine ⟨program, h, ?_, ⟨first, ?_, haddress⟩, ?_⟩
  · rw [hzero.1, hfirst]
    simp [haddress, hsecond]
  · rw [hmiddle.2.1, hfirst]
    simp [haddress, hsecond]
  · obtain ⟨declared, symbols, read, entered, hstages⟩ := Loader.load_stages h
    have hkeys : (program.routines.filter (·.address == 0xFFFFFFFF)).map Routine.key =
        [.root "late", .root "later"] := by
      rw [← RoutineReading.keys_of_readFrom (hstages.readFrom_routines 0xFFFFFFFF)]
      decide +kernel
    obtain ⟨late, others, hlate, -, -⟩ := List.map_eq_cons_iff.mp hkeys
    obtain ⟨hmem, hentry⟩ := List.mem_filter.mp (hlate ▸ List.mem_cons_self)
    rw [beq_iff_eq] at hentry
    cases hnear : program.routineNear? 0xFFFFFFFF with
    | none =>
      have habove := hlast.2.2.1.mp hnear late hmem
      rw [hentry] at habove
      exact absurd habove (UInt32.lt_irrefl _)
    | some routine =>
      have hnearest := (hlast.2.2.2 routine).mp hnear
      have hleast := hnearest.greatest late hmem (hentry ▸ UInt32.le_refl _)
      have haddress : routine.address = 0xFFFFFFFF :=
        UInt32.le_antisymm hnearest.below (hentry ▸ hleast)
      have hlater := congrArg (Option.map Routine.key) hnearest.getLast?_filter
      rw [haddress, ← List.getLast?_map, hkeys] at hlater
      exact ⟨routine, rfl, (Option.some.inj hlater).symm⟩

end BinaryAtlas
