-- The laws of sizes. Type definitions and arrays lead from a type to the one
-- that its size comes from. The size is that of the last type times the counts of
-- all arrays on the way, cut off at the largest word once, whatever overflows on
-- the way. A way of more than 64 hops gives no size, and neither does a circle.
import BinaryAtlas.TypeGraph.Size
import Mathlib.Algebra.GroupWithZero.Nat

namespace BinaryAtlas

/-! ## Products -/

/-- The size of arrays in each other around a type of the given size: its size
times all counts, or the largest word if that does not fit. -/
def arraySize (size : UInt32) (counts : List UInt32) : UInt32 :=
  .ofNat (min (UInt32.size - 1) (size.toNat * (counts.map UInt32.toNat).prod))

@[simp]
theorem arraySize_nil (size : UInt32) : arraySize size [] = size := by
  have hle : size.toNat ≤ UInt32.size - 1 := Nat.le_sub_one_of_lt size.toNat_lt
  rw [arraySize, List.map_nil, List.prod_nil, Nat.mul_one, Nat.min_eq_right hle,
    UInt32.ofNat_toNat]

theorem toNat_arraySize (size : UInt32) (counts : List UInt32) :
    (arraySize size counts).toNat =
      min (UInt32.size - 1) (size.toNat * (counts.map UInt32.toNat).prod) := by
  apply UInt32.toNat_ofNat_of_lt'
  exact Nat.lt_of_le_of_lt (Nat.min_le_left _ _) (by decide)

/-- A product that is cut off before the last factor is cut off after it. -/
theorem min_mul_min (bound product count : Nat) :
    min bound (min bound product * count) = min bound (product * count) := by
  rcases Nat.eq_zero_or_pos count with rfl | hcount
  · simp
  · rcases Nat.le_total product bound with hle | hle
    · rw [Nat.min_eq_right hle]
    · have hbound : bound ≤ bound * count := Nat.le_mul_of_pos_right bound hcount
      have hproduct : bound ≤ product * count :=
        Nat.le_trans hbound (Nat.mul_le_mul_right count hle)
      rw [Nat.min_eq_left hle, Nat.min_eq_left hbound, Nat.min_eq_left hproduct]

/-- One array more around the others. -/
theorem saturatingMul_arraySize (size count : UInt32) (counts : List UInt32) :
    saturatingMul (arraySize size counts) count = arraySize size (count :: counts) := by
  rw [saturatingMul, toNat_arraySize, Nat.min_comm, min_mul_min, arraySize,
    List.map_cons, List.prod_cons, Nat.mul_assoc, Nat.mul_comm count.toNat]

/-! ## Ways -/

/-- The size of a type that tells its size itself. The size of a type definition
or of an array comes from another type, and text has none. -/
def Shape.ownSize? (pointerSize : UInt32) : Shape → Option UInt32
  | primitive size => some size
  | enumeration size _ => some size
  | struct layout => some layout.size
  | union layout => some layout.size
  | signature _ _ => some pointerSize
  | pointer _ => some pointerSize
  | placeholder => some 0
  | typedef _ => none
  | array _ _ => none
  | string => none

namespace TypeStore

/-- The way from a slot over so many type definitions and arrays to another slot,
with the counts of the arrays. -/
inductive Way (store : TypeStore) : Slot → Nat → List UInt32 → Slot → Prop
  | here (slot : Slot) : Way store slot 0 [] slot
  | typedef {slot target last : Slot} {key : TypeKey} {hops : Nat} {counts : List UInt32} :
      store.entity? slot = some { key, shape := .typedef target } →
      Way store target hops counts last → Way store slot (hops + 1) counts last
  | array {slot element last : Slot} {key : TypeKey} {count : UInt32} {hops : Nat}
      {counts : List UInt32} :
      store.entity? slot = some { key, shape := .array element count } →
      Way store element hops counts last → Way store slot (hops + 1) (count :: counts) last

/-- A way ends in the slot: at a type with a size of its own, at text, or at no type
at all. -/
inductive Ends (store : TypeStore) (slot : Slot) : Option UInt32 → Prop
  | sized {e : Entity} {size : UInt32} : store.entity? slot = some e →
      e.shape.ownSize? store.pointerSize = some size → Ends store slot (some size)
  | text {e : Entity} : store.entity? slot = some e → e.shape = .string → Ends store slot none
  | nowhere : store.entity? slot = none → Ends store slot none

section

variable {store : TypeStore} {slot last : Slot} {taken : Nat} {counts : List UInt32}

/-- At the end of the way, the hops that are left make no difference. -/
theorem Ends.sizeWithin {size : Option UInt32} (h : Ends store slot size) (hops : Nat) :
    store.sizeWithin hops slot = size := by
  unfold TypeStore.sizeWithin
  cases h with
  | @sized e size he hsize =>
    rw [he]
    cases hshape : e.shape <;> rw [hshape] at hsize <;> cases hsize <;> simp only [hshape]
  | text he hshape =>
    rw [he]
    simp only [hshape]
  | nowhere he => rw [he]

/-- A size is looked for at the end of the way, with the hops that are left. -/
theorem Way.sizeWithin (h : Way store slot taken counts last) (more : Nat) :
    store.sizeWithin (more + taken) slot =
      (store.sizeWithin more last).map (arraySize · counts) := by
  induction h with
  | here slot => simp
  | typedef hslot _ ih =>
    rw [← Nat.add_assoc, TypeStore.sizeWithin, hslot]
    exact ih
  | array hslot _ ih =>
    rw [← Nat.add_assoc, TypeStore.sizeWithin, hslot]
    simp only [ih, Option.map_map, Function.comp_def, saturatingMul_arraySize]

/-- A way that is longer than the hops that are left gives no size. -/
theorem Way.sizeWithin_of_lt (h : Way store slot taken counts last) {hops : Nat}
    (hlt : hops < taken) : store.sizeWithin hops slot = none := by
  induction h generalizing hops with
  | here => cases hlt
  | typedef hslot _ ih =>
    rw [TypeStore.sizeWithin.eq_def, hslot]
    cases hops with
    | zero => rfl
    | succ hops => exact ih (Nat.lt_of_succ_lt_succ hlt)
  | array hslot _ ih =>
    rw [TypeStore.sizeWithin.eq_def, hslot]
    cases hops with
    | zero => rfl
    | succ hops => simp only [ih (Nat.lt_of_succ_lt_succ hlt), Option.map_none]

/-- From a slot on a circle, no number of hops is enough. -/
theorem Way.sizeWithin_circle (h : Way store slot (taken + 1) counts slot) (hops : Nat) :
    store.sizeWithin hops slot = none := by
  induction hops using Nat.strongRecOn with
  | ind hops ih =>
    rcases Nat.lt_or_ge hops (taken + 1) with hlt | hge
    · exact h.sizeWithin_of_lt hlt
    · obtain ⟨more, rfl⟩ := Nat.exists_eq_add_of_le' hge
      rw [h.sizeWithin more, ih more (by omega), Option.map_none]

end

/-- A slot either ends the way or leads on by one hop. -/
theorem ends_or_way (store : TypeStore) (slot : Slot) :
    (∃ size, Ends store slot size) ∨ ∃ counts next, Way store slot 1 counts next := by
  cases he : store.entity? slot with
  | none => exact .inl ⟨none, .nowhere he⟩
  | some e =>
    obtain ⟨key, shape⟩ := e
    cases shape with
    | typedef target => exact .inr ⟨_, _, .typedef he (.here target)⟩
    | array element count => exact .inr ⟨_, _, .array he (.here element)⟩
    | string => exact .inl ⟨none, .text he rfl⟩
    | _ => exact .inl ⟨_, .sized he rfl⟩

/-- Way after way. -/
theorem Way.trans {store : TypeStore} {slot middle last : Slot} {hops hops' : Nat}
    {counts counts' : List UInt32} (h : Way store slot hops counts middle)
    (h' : Way store middle hops' counts' last) :
    Way store slot (hops' + hops) (counts ++ counts') last := by
  induction h with
  | here => exact h'
  | typedef hslot _ ih => exact .typedef hslot (ih h')
  | array hslot _ ih => exact .array hslot (ih h')

/-- The way from a slot ends within so many hops, or goes on for one hop more. -/
theorem exists_way (store : TypeStore) (slot : Slot) (hops : Nat) :
    (∃ taken ≤ hops, ∃ counts last size, Way store slot taken counts last ∧
      Ends store last size) ∨
    ∃ counts last, Way store slot (hops + 1) counts last := by
  induction hops with
  | zero =>
    refine (ends_or_way store slot).imp_left fun ⟨size, hends⟩ => ?_
    exact ⟨0, Nat.le_refl 0, [], slot, size, .here slot, hends⟩
  | succ hops ih =>
    rcases ih with ⟨taken, hle, hway⟩ | ⟨counts, last, hway⟩
    · exact .inl ⟨taken, Nat.le_succ_of_le hle, hway⟩
    · refine (ends_or_way store last).imp ?_ ?_
      · exact fun ⟨size, hends⟩ => ⟨hops + 1, Nat.le_refl _, counts, last, size, hway, hends⟩
      · rintro ⟨counts', next, hnext⟩
        rw [Nat.add_comm]
        exact ⟨counts ++ counts', next, hway.trans hnext⟩

/-! ## Sizes -/

/-- Whatever the references of a store are: the size of a slot is that of the type
at the end of the way, if at most 64 hops lead there, times the counts of all
arrays on the way, or the largest word if that does not fit. There is no size only
if such a way ends at text, or out of the store, or goes on for more hops; so a way
into a circle has none. -/
theorem sizes_multiply_along_the_way (store : TypeStore) (slot : Slot) :
    (∀ n, store.sizeOf? slot = some n ↔ ∃ hops ≤ 64, ∃ counts last size,
      Way store slot hops counts last ∧ Ends store last (some size) ∧
      n.toNat = min (UInt32.size - 1) (size.toNat * (counts.map UInt32.toNat).prod)) ∧
    (store.sizeOf? slot = none ↔
      (∃ hops ≤ 64, ∃ counts last, Way store slot hops counts last ∧ Ends store last none) ∨
      ∃ counts last, Way store slot 65 counts last) ∧
    ∀ hops counts again round counts', Way store slot hops counts again →
      Way store again (round + 1) counts' again → store.sizeOf? slot = none := by
  have hends {hops : Nat} {counts : List UInt32} {last : Slot} {size : Option UInt32}
      (hle : hops ≤ 64) (hway : Way store slot hops counts last) (hlast : Ends store last size) :
      store.sizeOf? slot = size.map (arraySize · counts) := by
    obtain ⟨more, hmore⟩ := Nat.exists_eq_add_of_le' hle
    rw [sizeOf?, maxHops, hmore, hway.sizeWithin, hlast.sizeWithin]
  have hlong {counts : List UInt32} {last : Slot} (hway : Way store slot 65 counts last) :
      store.sizeOf? slot = none := hway.sizeWithin_of_lt (by decide)
  refine ⟨fun n => ⟨fun hsize => ?_, ?_⟩, ⟨fun hsize => ?_, ?_⟩, ?_⟩
  · rcases exists_way store slot 64 with ⟨hops, hle, counts, last, size, hway, hlast⟩ |
      ⟨counts, last, hway⟩
    · rw [hends hle hway hlast] at hsize
      obtain ⟨size, rfl, rfl⟩ := Option.map_eq_some_iff.mp hsize
      exact ⟨hops, hle, counts, last, size, hway, hlast, toNat_arraySize size counts⟩
    · rw [hlong hway] at hsize
      cases hsize
  · rintro ⟨hops, hle, counts, last, size, hway, hlast, hn⟩
    rw [hends hle hway hlast, Option.map_some, Option.some.injEq, ← UInt32.toNat_inj, hn]
    exact toNat_arraySize size counts
  · refine (exists_way store slot 64).imp_left ?_
    rintro ⟨hops, hle, counts, last, size, hway, hlast⟩
    rw [hends hle hway hlast, Option.map_eq_none_iff] at hsize
    subst hsize
    exact ⟨hops, hle, counts, last, hway, hlast⟩
  · rintro (⟨hops, hle, counts, last, hway, hlast⟩ | ⟨counts, last, hway⟩)
    · exact hends hle hway hlast
    · exact hlong hway
  · intro hops counts again round counts' hway hcircle
    rcases Nat.lt_or_ge 64 hops with hlt | hge
    · exact hway.sizeWithin_of_lt hlt
    · obtain ⟨more, hmore⟩ := Nat.exists_eq_add_of_le' hge
      rw [sizeOf?, maxHops, hmore, hway.sizeWithin, hcircle.sizeWithin_circle, Option.map_none]

-- A count of zero brings a product back that did not fit, and an array of itself has no size.
example :
    let store : TypeStore := {
      pointerSize := 4
      slots := #[⟨.root "a", .primitive 8⟩, ⟨.root "b", .array 0 0xFFFFFFFF⟩,
        ⟨.root "c", .array 1 0⟩, ⟨.root "d", .typedef 4⟩, ⟨.root "d[2]", .array 3 2⟩] }
    store.sizeOf? 1 = some 0xFFFFFFFF ∧ store.sizeOf? 2 = some 0 ∧ store.sizeOf? 3 = none := by
  decide +kernel

end TypeStore

end BinaryAtlas
