-- The laws of a whole resolution. It resolves the entities of its keys and
-- leaves all others alone, whatever the order of the keys; so nothing but
-- references ever changes, each goes on standing for the same key, and a
-- second resolution has nothing to do.
import BinaryAtlas.Proofs.Resolution
import Mathlib.Data.List.Forall2

namespace BinaryAtlas

namespace TypeStore

/-! ## Some keys -/

/-- What the resolution of some keys comes to. -/
structure Resolves (store : TypeStore) (keys : List TypeKey) (answer : Bool × TypeStore) :
    Prop where
  index : answer.2.index = store.index
  pointerSize : answer.2.pointerSize = store.pointerSize
  entity? : ∀ slot, answer.2.entity? slot = (store.entity? slot).map fun e =>
    if e.key ∈ keys ∧ store.lookup e.key = some slot then store.resolveEntity e else e
  moved : answer.1 = true ↔
    ∃ key ∈ keys, ∃ e, store.byKey? key = some e ∧ store.hasLoose e = true

section

variable {store : TypeStore} {keys : List TypeKey} {answer : Bool × TypeStore}

/-- No entity gets another key, and none becomes or stops being a placeholder. -/
theorem Resolves.places (h : Resolves store keys answer) : SamePlaces store answer.2 where
  index := h.index
  pointerSize := h.pointerSize
  size := by
    apply Nat.le_antisymm
    · apply Array.getElem?_eq_none_iff.mp
      have hend := h.entity? store.slots.size
      rw [TypeStore.entity?, TypeStore.entity?, Array.getElem?_size] at hend
      exact hend
    · apply Array.getElem?_eq_none_iff.mp
      have hend := h.entity? answer.2.slots.size
      rw [TypeStore.entity?, TypeStore.entity?, Array.getElem?_size] at hend
      exact Option.map_eq_none_iff.mp hend.symm
  keyAt? := by
    intro slot
    rw [keyAt?, h.entity?, Option.map_map, keyAt?]
    congr 1
    funext e
    rw [Function.comp_apply]
    split <;> rfl
  isPlaceholder := by
    intro slot
    rw [isPlaceholder, isPlaceholder, h.entity?]
    cases store.entity? slot with
    | none => rfl
    | some e =>
      rw [Option.map_some]
      split
      · rename_i he
        obtain rfl := Option.some.inj he
        split
        · exact Shape.isPlaceholder_mapRefs store.resolveSlot e.shape
        · rfl
      · rename_i he
        cases he

/-- References go on leading to slots of the store. -/
theorem Resolves.closed (h : Resolves store keys answer) (hi : Indexed store)
    (hc : Closed store) : Closed answer.2 := by
  intro slot e he r hr
  rw [h.entity?] at he
  obtain ⟨old, hold, rfl⟩ := Option.map_eq_some_iff.mp he
  rw [h.places.size]
  split at hr
  · rw [refs_resolveEntity] at hr
    obtain ⟨start, hstart, rfl⟩ := List.mem_map.mp hr
    apply lt_of_keyAt?
    rw [keyAt?_resolveSlot hi, keyAt?_of_lt (hc slot old hold start hstart)]
  · exact hc slot old hold r hr

/-- The entity that a key stands for is resolved, if the key is among those. -/
theorem Resolves.byKey? (h : Resolves store keys answer) (hi : Indexed store) (key : TypeKey) :
    answer.2.byKey? key = (store.byKey? key).map fun e =>
      if key ∈ keys then store.resolveEntity e else e := by
  rw [TypeStore.byKey?, TypeStore.byKey?, h.places.lookup]
  cases hkey : store.lookup key with
  | none => rfl
  | some slot =>
    obtain ⟨e, he, rfl⟩ := hi.registered hkey
    simp only [Option.bind_some, h.entity?, he, Option.map_some, hkey, and_true]

end

theorem resolves_nil (store : TypeStore) : Resolves store [] (false, store) where
  index := rfl
  pointerSize := rfl
  entity? := by simp
  moved := by simp

/-- One key. -/
theorem resolveKey_resolves {store : TypeStore} (h : Indexed store) (key : TypeKey) :
    Resolves store [key] (store.resolveKey key) := by
  cases hkey : store.lookup key with
  | none =>
    rw [show store.resolveKey key = (false, store) by simp only [resolveKey, hkey]]
    refine ⟨rfl, rfl, ?_, ?_⟩
    · intro slot
      have hskip (e : Entity) : ¬ (e.key ∈ [key] ∧ store.lookup e.key = some slot) := by
        rintro ⟨hmem, hslot⟩
        rw [List.mem_singleton.mp hmem, hkey] at hslot
        cases hslot
      simp only [if_neg (hskip _), Option.map_id_fun', id]
    · simp [byKey?, hkey]
  | some slot =>
    obtain ⟨e, he, hk⟩ := h.registered hkey
    rw [resolveKey_eq h hkey he hk]
    refine ⟨rfl, rfl, ?_, ?_⟩
    · intro other
      rw [entity?_setShape]
      split
      · rename_i hother
        subst hother
        have hhere : e.key ∈ [key] ∧ store.lookup e.key = some slot := by
          rw [hk]
          exact ⟨List.mem_singleton_self key, hkey⟩
        rw [he, Option.map_some, Option.map_some, if_pos hhere]
        rfl
      · rename_i hother
        cases he' : store.entity? other with
        | none => rfl
        | some e' =>
          rw [Option.map_some, if_neg]
          rintro ⟨hmem, hslot⟩
          rw [List.mem_singleton.mp hmem, hkey, Option.some.injEq] at hslot
          exact hother hslot
    · simp [byKey?, hkey, he]

/-- Keys after a first one. An entity that has been resolved already stays as
it is and has nothing loose, so it does not matter that the first key may come
up once more. -/
theorem resolves_cons {store : TypeStore} (h : Indexed store) {key : TypeKey}
    {keys : List TypeKey} {first rest : Bool × TypeStore} (hfirst : Resolves store [key] first)
    (hrest : Resolves first.2 keys rest) :
    Resolves store (key :: keys) (first.1 || rest.1, rest.2) where
  index := hrest.index.trans hfirst.index
  pointerSize := hrest.pointerSize.trans hfirst.pointerSize
  entity? := by
    intro slot
    rw [hrest.entity?, hfirst.entity?, Option.map_map]
    congr 1
    funext e
    have htwice : store.resolveEntity (store.resolveEntity e) = store.resolveEntity e :=
      resolveEntity_of_not_loose (not_hasLoose_resolveEntity h e)
    simp only [Function.comp_apply, List.mem_cons, List.not_mem_nil, or_false,
      hfirst.places.lookup, hfirst.places.resolveEntity]
    by_cases hslot : store.lookup e.key = some slot
    · by_cases hkey : e.key = key
      · subst hkey
        simp [hslot, htwice]
      · simp [hslot, hkey]
    · simp [hslot]
  moved := by
    rw [Bool.or_eq_true, hfirst.moved, hrest.moved]
    simp only [hfirst.byKey? h, hfirst.places.hasLoose, List.mem_cons, List.not_mem_nil,
      or_false, exists_eq_left, Option.map_eq_some_iff]
    constructor
    · rintro (⟨e, he, hloose⟩ | ⟨key', hmem, e', ⟨e, he, rfl⟩, hloose⟩)
      -- What the later keys find loose is not the entity of the first key.
      · exact ⟨key, .inl rfl, e, he, hloose⟩
      · split at hloose
        · rw [not_hasLoose_resolveEntity h] at hloose
          cases hloose
        · exact ⟨key', .inr hmem, e, he, hloose⟩
    · rintro ⟨key', hmem, e, he, hloose⟩
      by_cases hkey : key' = key
      · subst hkey
        exact .inl ⟨e, he, hloose⟩
      · refine .inr ⟨key', hmem.resolve_left hkey, e, ⟨e, he, ?_⟩, hloose⟩
        rw [if_neg hkey]

theorem resolveKeys_resolves {store : TypeStore} (h : Indexed store) (keys : List TypeKey) :
    Resolves store keys (store.resolveKeys keys) := by
  induction keys generalizing store with
  | nil => exact resolves_nil store
  | cons key keys ih =>
    have hfirst := resolveKey_resolves h key
    exact resolves_cons h hfirst (ih (hfirst.places.indexed h))

/-! ## All keys -/

theorem mem_keys {store : TypeStore} {key : TypeKey} :
    key ∈ store.keys ↔ ∃ slot, store.lookup key = some slot := by
  rw [keys, Std.ExtTreeMap.mem_keys, Std.ExtTreeMap.mem_iff_isSome_getElem?,
    Option.isSome_iff_exists]
  rfl

theorem resolve_resolves {store : TypeStore} (h : Indexed store) :
    Resolves store store.keys store.resolve := resolveKeys_resolves h store.keys

section

variable {store : TypeStore} {keys : List TypeKey} {answer : Bool × TypeStore}

/-- All entities that keys stand for are resolved, in whatever order the keys
come. -/
theorem Resolves.byKey?_all (h : Resolves store keys answer) (hi : Indexed store)
    (hall : keys.Perm store.keys) (key : TypeKey) :
    answer.2.byKey? key = (store.byKey? key).map store.resolveEntity := by
  rw [h.byKey? hi]
  cases he : store.byKey? key with
  | none => rfl
  | some e =>
    obtain ⟨slot, hkey, -⟩ := byKey?_eq_some.mp he
    rw [Option.map_some, Option.map_some, if_pos (hall.mem_iff.mpr (mem_keys.mpr ⟨slot, hkey⟩))]

/-- The resolution has moved something just when the references of a key's
entity are others than before. -/
theorem Resolves.moved_iff (h : Resolves store keys answer) (hi : Indexed store)
    (hall : keys.Perm store.keys) :
    answer.1 = true ↔ ∃ key e e', store.byKey? key = some e ∧
      answer.2.byKey? key = some e' ∧ e'.refs ≠ e.refs := by
  rw [h.moved]
  constructor
  · rintro ⟨key, hmem, e, he, hloose⟩
    refine ⟨key, e, store.resolveEntity e, he, ?_, hasLoose_iff_refs_ne.mp hloose⟩
    rw [h.byKey?_all hi hall, he, Option.map_some]
  · rintro ⟨key, e, e', he, he', hne⟩
    rw [h.byKey?_all hi hall, he, Option.map_some, Option.some.injEq] at he'
    subst he'
    obtain ⟨slot, hkey, -⟩ := byKey?_eq_some.mp he
    have hmem : key ∈ keys := hall.mem_iff.mpr (mem_keys.mpr ⟨slot, hkey⟩)
    exact ⟨key, hmem, e, he, hasLoose_iff_refs_ne.mpr hne⟩

/-- Nothing is loose after a resolution. -/
theorem Resolves.not_hasLoose (h : Resolves store keys answer) (hi : Indexed store)
    (hall : keys.Perm store.keys) {key : TypeKey} {e : Entity}
    (he : answer.2.byKey? key = some e) : answer.2.hasLoose e = false := by
  rw [h.byKey?_all hi hall] at he
  obtain ⟨old, -, rfl⟩ := Option.map_eq_some_iff.mp he
  rw [h.places.hasLoose]
  exact not_hasLoose_resolveEntity hi old

end

/-- A store without loose references is left as it is. -/
theorem resolveKeys_eq_self {store : TypeStore} (h : Indexed store)
    (hstill : ∀ key e, store.byKey? key = some e → store.hasLoose e = false)
    (keys : List TypeKey) : store.resolveKeys keys = (false, store) := by
  have hr := resolveKeys_resolves h keys
  have hmoved : (store.resolveKeys keys).1 = false := by
    cases hm : (store.resolveKeys keys).1 with
    | false => rfl
    | true =>
      obtain ⟨key, -, e, he, hloose⟩ := hr.moved.mp hm
      rw [hstill key e he] at hloose
      cases hloose
  have hstore : (store.resolveKeys keys).2 = store := by
    apply ext_entity? hr.index hr.pointerSize
    intro slot
    rw [hr.entity?]
    cases he : store.entity? slot with
    | none => rfl
    | some e =>
      rw [Option.map_some]
      split
      · rename_i hkey
        have hby : store.byKey? e.key = some e := byKey?_eq_some.mpr ⟨slot, hkey.2, he⟩
        rw [resolveEntity_of_not_loose (hstill _ _ hby)]
      · rfl
  exact Prod.ext hmoved hstore

end TypeStore

/-! ## What stays -/

/-- The entity without its references: all of them are the same slot. -/
def Entity.blank (e : Entity) : Entity := e.mapRefs fun _ => 0

theorem Entity.blank_mapRefs (f : Slot → Slot) (e : Entity) : (e.mapRefs f).blank = e.blank := by
  rw [blank, mapRefs, mapRefs, Shape.mapRefs_mapRefs]
  rfl

namespace TypeStore

/-- Two references, each in a store of its own, to entities of one key. -/
def SameKey (store store' : TypeStore) (r r' : Slot) : Prop :=
  ∃ key, store.keyAt? r = some key ∧ store'.keyAt? r' = some key

section

variable {store : TypeStore} {keys : List TypeKey} {answer : Bool × TypeStore}

/-- A reference that is resolved goes on standing for its key. -/
theorem Resolves.sameKey (h : Resolves store keys answer) (hi : Indexed store) {r r' : Slot}
    (hr : r < store.slots.size) (hmove : r' = r ∨ r' = store.resolveSlot r) :
    SameKey store answer.2 r r' := by
  have hkey := keyAt?_of_lt hr
  refine ⟨_, hkey, ?_⟩
  rw [h.places.keyAt?]
  rcases hmove with rfl | rfl
  · exact hkey
  · rw [keyAt?_resolveSlot hi, hkey]

/-- An entity keeps all but its references. -/
theorem Resolves.keeps (h : Resolves store keys answer) (hi : Indexed store)
    (hc : Closed store) {slot : Slot} {e : Entity} (he : store.entity? slot = some e) :
    ∃ e', answer.2.entity? slot = some e' ∧ e'.blank = e.blank ∧
      List.Forall₂ (SameKey store answer.2) e.refs e'.refs := by
  rw [h.entity?, he, Option.map_some]
  refine ⟨_, rfl, ?_, ?_⟩
  · split
    · exact Entity.blank_mapRefs store.resolveSlot e
    · rfl
  · split
    · rw [refs_resolveEntity, List.forall₂_map_right_iff, List.forall₂_same]
      exact fun r hr => h.sameKey hi (hc slot e he r hr) (.inr rfl)
    · rw [List.forall₂_same]
      exact fun r hr => h.sameKey hi (hc slot e he r hr) (.inl rfl)

end

/-- The resolution of a store, in any order of its keys, tells whether a
reference has moved. It makes no slot and no key, entities keep all but their
references, and those keep their keys. A second resolution moves nothing. -/
theorem resolving_moves_references_and_nothing_else {store : TypeStore} (h : Built store)
    {order : List TypeKey} (horder : order.Perm store.keys) :
    ((store.resolveKeys order).1 = true ↔ ∃ key e e', store.byKey? key = some e ∧
      (store.resolveKeys order).2.byKey? key = some e' ∧ e'.refs ≠ e.refs) ∧
    (store.resolveKeys order).2.slots.size = store.slots.size ∧
    (store.resolveKeys order).2.index = store.index ∧
    (store.resolveKeys order).2.pointerSize = store.pointerSize ∧
    (∀ slot e, store.entity? slot = some e →
      ∃ e', (store.resolveKeys order).2.entity? slot = some e' ∧ e'.blank = e.blank ∧
        List.Forall₂ (SameKey store (store.resolveKeys order).2) e.refs e'.refs) ∧
    ∀ again, (store.resolveKeys order).2.resolveKeys again =
      (false, (store.resolveKeys order).2) := by
  have hi := indexed_of_built h
  have hr := resolveKeys_resolves hi order
  refine ⟨hr.moved_iff hi horder, hr.places.size, hr.index, hr.pointerSize, ?_, ?_⟩
  · intro slot e he
    exact hr.keeps hi (closed_of_built h) he
  · apply resolveKeys_eq_self (hr.places.indexed hi)
    exact fun key e he => hr.not_hasLoose hi horder he

/-- A store where a type definition names a type that is declared after it. -/
def forwardStore : TypeStore :=
  let store := ((empty 4).get (.root "late")).2
  let store := (store.add { key := .root "early", shape := .typedef 0 }).2
  (store.add { key := .root "late", shape := .primitive 4 }).2

theorem a_forward_reference_moves_once : Built forwardStore ∧ forwardStore.resolve.1 = true ∧
    forwardStore.resolve.2.resolve.1 = false := by
  have hbuilt : Built forwardStore := by
    apply Built.add
    · apply Built.add
      · exact .get _ (.empty 4)
      · decide +kernel
    · decide +kernel
  have hmain := resolving_moves_references_and_nothing_else hbuilt (.refl forwardStore.keys)
  have hmoved : forwardStore.resolve.1 = true := by decide +kernel
  exact ⟨hbuilt, hmoved, congrArg Prod.fst (hmain.2.2.2.2.2 forwardStore.resolve.2.keys)⟩

/-! ## The order of the keys -/

section

variable {store : TypeStore} {keys keys' : List TypeKey} {answer answer' : Bool × TypeStore}

/-- It counts which keys are resolved, but neither in which order nor how often. -/
theorem Resolves.congr (h : Resolves store keys answer) (hsame : ∀ key, key ∈ keys ↔ key ∈ keys') :
    Resolves store keys' answer where
  index := h.index
  pointerSize := h.pointerSize
  entity? := by
    intro slot
    simp only [h.entity?, hsame]
  moved := by
    simp only [h.moved, hsame]

/-- The keys tell all that a resolution of them comes to. -/
theorem Resolves.unique (h : Resolves store keys answer) (h' : Resolves store keys answer') :
    answer = answer' := by
  have hmoved : answer.1 = answer'.1 := Bool.eq_iff_iff.mpr (h.moved.trans h'.moved.symm)
  have hstore : answer.2 = answer'.2 := by
    apply ext_entity? (h.index.trans h'.index.symm) (h.pointerSize.trans h'.pointerSize.symm)
    intro slot
    rw [h.entity?, h'.entity?]
  exact Prod.ext hmoved hstore

end

/-- Two resolutions of the same keys come to the same, though each entity is
resolved in a store that the earlier ones have changed already. -/
theorem resolveKeys_congr {store : TypeStore} (h : Indexed store) {keys keys' : List TypeKey}
    (hsame : ∀ key, key ∈ keys ↔ key ∈ keys') : store.resolveKeys keys = store.resolveKeys keys' :=
  ((resolveKeys_resolves h keys).congr hsame).unique (resolveKeys_resolves h keys')

theorem resolveKeys_visit {store : TypeStore} (h : Indexed store) (order : VisitOrder) :
    store.resolveKeys (order.keys store) = store.resolve :=
  resolveKeys_congr h fun _ => (order.perm store).mem_iff

/-- In whatever order all keys of a store are visited, the resolution ends with
the same slots, the same entities and the same index, and tells the same of whether a
reference has moved. -/
theorem the_order_of_visits_makes_no_difference {store : TypeStore} (h : Built store)
    {order order' : List TypeKey} (horder : order.Perm store.keys)
    (horder' : order'.Perm store.keys) : store.resolveKeys order = store.resolveKeys order' := by
  apply resolveKeys_congr (indexed_of_built h)
  intro key
  rw [horder.mem_iff, horder'.mem_iff]

/-- A struct that holds a second one, which holds a type definition of a pointer to the
first: either struct is declared before what it holds. -/
def roundStore : TypeStore :=
  let holds (slot : Slot) : Layout :=
    { size := 4, members := [{ name := "next", type := slot, offset := 0, size := 4 }] }
  let store := ((empty 4).get (.root "second")).2
  let store := (store.get (.root "third")).2
  let store := (store.add { key := .root "first", shape := .struct (holds 0) }).2
  let store := (store.get (.root "first *")).2
  let store := (store.add { key := .root "second", shape := .struct (holds 1) }).2
  (store.add { key := .root "third", shape := .typedef 3 }).2

theorem a_round_of_types_is_resolved_from_either_end : Built roundStore ∧
    roundStore.resolveKeys roundStore.keys = roundStore.resolveKeys roundStore.keys.reverse ∧
    (roundStore.resolveKeys roundStore.keys).1 = true := by
  have hbuilt : Built roundStore := by
    refine .add (.add (.get _ (.add (.get _ (.get _ (.empty 4))) ?_)) ?_) ?_
    · decide +kernel
    · decide +kernel
    · decide +kernel
  have hmain := the_order_of_visits_makes_no_difference hbuilt (.refl roundStore.keys)
    (List.reverse_perm roundStore.keys)
  exact ⟨hbuilt, hmain, by decide +kernel⟩

end TypeStore

end BinaryAtlas
