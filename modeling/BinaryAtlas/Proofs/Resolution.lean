-- The laws of resolution. While an entity is resolved, a placeholder stands in
-- its slot, and each reference asks the store for a key. In a store whose
-- index agrees with its slots, no request makes anything and the stand-in
-- misleads nobody; so all references move at once, to the slots that the keys
-- of their placeholders stand for.
import BinaryAtlas.Proofs.References
import BinaryAtlas.Proofs.StoreIndex
import BinaryAtlas.TypeGraph.Resolve

namespace BinaryAtlas

/-! ## One reference -/

namespace TypeStore

theorem resolveSlot_of_not_placeholder {store : TypeStore} {slot : Slot}
    (h : store.isPlaceholder slot = false) : store.resolveSlot slot = slot := by
  unfold isPlaceholder at h
  unfold resolveSlot
  split
  · rename_i he
    simp [he, Shape.isPlaceholder] at h
  · rfl

theorem resolveSlot_of_placeholder {store : TypeStore} {slot target : Slot} {key : TypeKey}
    (he : store.entity? slot = some { key, shape := .placeholder })
    (hkey : store.lookup key = some target) : store.resolveSlot slot = target := by
  simp [resolveSlot, he, hkey]

theorem isPlaceholder_iff {store : TypeStore} {slot : Slot} :
    store.isPlaceholder slot = true ↔
      ∃ key, store.entity? slot = some { key, shape := .placeholder } := by
  unfold isPlaceholder
  constructor
  · intro h
    split at h
    · rename_i e he
      obtain ⟨key, shape⟩ := e
      cases shape <;> simp_all [Shape.isPlaceholder]
    · cases h
  · rintro ⟨key, he⟩
    simp [he, Shape.isPlaceholder]

/-- A reference moves to an entity of the same key. -/
theorem keyAt?_resolveSlot {store : TypeStore} (h : Indexed store) (slot : Slot) :
    store.keyAt? (store.resolveSlot slot) = store.keyAt? slot := by
  cases hp : store.isPlaceholder slot with
  | false => rw [resolveSlot_of_not_placeholder hp]
  | true =>
    obtain ⟨key, he⟩ := isPlaceholder_iff.mp hp
    obtain ⟨target, hkey⟩ := h.known he
    obtain ⟨e', he', hk⟩ := h.registered hkey
    rw [resolveSlot_of_placeholder he hkey]
    simp [keyAt?, he, he', hk]

/-- A reference to the slot that its key stands for stays there, also if a placeholder
stands in the slot. -/
theorem resolveSlot_of_current {store : TypeStore} {slot : Slot} {e : Entity}
    (he : store.entity? slot = some e) (hkey : store.lookup e.key = some slot) :
    store.resolveSlot slot = slot := by
  cases hp : store.isPlaceholder slot with
  | false => exact resolveSlot_of_not_placeholder hp
  | true =>
    obtain ⟨key, he'⟩ := isPlaceholder_iff.mp hp
    obtain rfl := Option.some.inj (he.symm.trans he')
    exact resolveSlot_of_placeholder he' hkey

/-- A reference that still leads to a placeholder leads to the one that its
key stands for. -/
theorem lookup_of_isPlaceholder_resolveSlot {store : TypeStore} (h : Indexed store) {slot : Slot}
    {e : Entity} (he : store.entity? (store.resolveSlot slot) = some e)
    (hp : e.shape.isPlaceholder = true) : store.lookup e.key = some (store.resolveSlot slot) := by
  have hslot : store.isPlaceholder slot = true := by
    cases hn : store.isPlaceholder slot with
    | true => rfl
    | false =>
      rw [resolveSlot_of_not_placeholder hn] at he
      simp [isPlaceholder, he, hp] at hn
  obtain ⟨key, hstart⟩ := isPlaceholder_iff.mp hslot
  obtain ⟨target, hkey⟩ := h.known hstart
  obtain ⟨e', he', hk⟩ := h.registered hkey
  rw [resolveSlot_of_placeholder hstart hkey] at he ⊢
  obtain rfl : e' = e := Option.some.inj (he'.symm.trans he)
  rw [hk]
  exact hkey

/-- A reference moves once at most. -/
theorem resolveSlot_resolveSlot {store : TypeStore} (h : Indexed store) (slot : Slot) :
    store.resolveSlot (store.resolveSlot slot) = store.resolveSlot slot := by
  cases hp : store.isPlaceholder (store.resolveSlot slot) with
  | false => exact resolveSlot_of_not_placeholder hp
  | true =>
    obtain ⟨key, he⟩ := isPlaceholder_iff.mp hp
    exact resolveSlot_of_placeholder he (lookup_of_isPlaceholder_resolveSlot h he rfl)

end TypeStore

/-! ## References in place -/

namespace Resolving

open TypeStore

/-- A reference of a well indexed store resolves in place as it resolves at
once, and leaves the store alone: the key of every placeholder is registered,
so the request for it makes nothing. -/
theorem run_ref {r : Resolving} (h : Indexed r.store) (slot : Slot) :
    (ref slot).run r =
      (r.store.resolveSlot slot, { r with moved := r.moved || r.store.isLoose slot }) := by
  cases hp : r.store.isPlaceholder slot with
  | true =>
    obtain ⟨key, he⟩ := isPlaceholder_iff.mp hp
    obtain ⟨target, hkey⟩ := h.known he
    have hget := get_of_lookup hkey
    have hslot := resolveSlot_of_placeholder he hkey
    simp only [StateT.run, ref, he, hget, isLoose, hslot]
  | false =>
    have hslot := resolveSlot_of_not_placeholder hp
    have hstay : (ref slot).run r = (slot, r) := by
      simp only [StateT.run, ref]
      split
      · rename_i he
        simp [isPlaceholder, he, Shape.isPlaceholder] at hp
      · rfl
    rw [hstay, hslot]
    simp [isLoose, hslot]

theorem follows_ref {store : TypeStore} (h : Indexed store) :
    Follows (fun r : Resolving => r.store = store) ref store.resolveSlot
      (fun r slot => { r with moved := r.moved || store.isLoose slot }) where
  run := by
    rintro r rfl slot
    exact run_ref h slot
  keeps := by
    rintro r rfl slot
    rfl

theorem foldl_moved (store : TypeStore) (slots : List Slot) (r : Resolving) :
    slots.foldl (fun r slot => { r with moved := r.moved || store.isLoose slot }) r =
      { r with moved := r.moved || slots.any store.isLoose } := by
  induction slots generalizing r with
  | nil => simp
  | cons slot slots ih =>
    rw [List.foldl_cons, ih]
    simp [Bool.or_assoc]

/-- A whole shape resolves in place as it resolves at once. -/
theorem run_shape {store : TypeStore} (h : Indexed store) (shape : Shape) :
    (shape.mapRefsM ref).run { store } =
      (shape.mapRefs store.resolveSlot, { store, moved := shape.refs.any store.isLoose }) := by
  rw [(follows_ref h).run_shape shape rfl, foldl_moved, Bool.false_or]

end Resolving

namespace TypeStore

/-! ## Stores that differ in references only -/

theorem ext_entity? {store store' : TypeStore} (hindex : store'.index = store.index)
    (hsize : store'.pointerSize = store.pointerSize)
    (h : ∀ slot, store'.entity? slot = store.entity? slot) : store' = store := by
  obtain ⟨size, slots, index⟩ := store
  obtain ⟨size', slots', index'⟩ := store'
  obtain rfl : index' = index := hindex
  obtain rfl : size' = size := hsize
  obtain rfl : slots' = slots := Array.ext_getElem? h
  rfl

theorem isLoose_congr {store store' : TypeStore}
    (h : ∀ slot, store'.resolveSlot slot = store.resolveSlot slot) :
    store'.isLoose = store.isLoose := by
  funext slot
  rw [isLoose, isLoose, h]

/-- Two stores with the same index, and with placeholders of the same keys in
the same slots. -/
structure SamePlaces (store store' : TypeStore) : Prop where
  index : store'.index = store.index
  pointerSize : store'.pointerSize = store.pointerSize
  size : store'.slots.size = store.slots.size
  keyAt? : ∀ slot, store'.keyAt? slot = store.keyAt? slot
  isPlaceholder : ∀ slot, store'.isPlaceholder slot = store.isPlaceholder slot

section

variable {store store' : TypeStore}

theorem SamePlaces.lookup (h : SamePlaces store store') (key : TypeKey) :
    store'.lookup key = store.lookup key := by
  simp only [TypeStore.lookup, h.index]

theorem SamePlaces.indexed (h : SamePlaces store store') (hi : Indexed store) :
    Indexed store' where
  registered := by
    intro key slot hkey
    obtain ⟨e, he, hk⟩ := hi.registered ((h.lookup key).symm.trans hkey)
    have hat : store'.keyAt? slot = some key := by
      rw [h.keyAt?, TypeStore.keyAt?, he, Option.map_some, hk]
    exact Option.map_eq_some_iff.mp hat
  known := by
    intro slot e he
    have hat : store.keyAt? slot = some e.key := by
      rw [← h.keyAt?, TypeStore.keyAt?, he, Option.map_some]
    obtain ⟨old, hold, hk⟩ := Option.map_eq_some_iff.mp hat
    rw [h.lookup, ← hk]
    exact hi.known hold

/-- Where a reference should be depends on the places only. -/
theorem SamePlaces.resolveSlot (h : SamePlaces store store') (slot : Slot) :
    store'.resolveSlot slot = store.resolveSlot slot := by
  cases hp : store.isPlaceholder slot with
  | false =>
    rw [resolveSlot_of_not_placeholder hp]
    exact resolveSlot_of_not_placeholder ((h.isPlaceholder slot).trans hp)
  | true =>
    obtain ⟨key, he⟩ := isPlaceholder_iff.mp hp
    obtain ⟨key', he'⟩ := isPlaceholder_iff.mp ((h.isPlaceholder slot).trans hp)
    have hat := h.keyAt? slot
    simp only [TypeStore.keyAt?, he, he', Option.map_some, Option.some.injEq] at hat
    simp only [TypeStore.resolveSlot, he, he', hat, h.lookup]

theorem SamePlaces.resolveEntity (h : SamePlaces store store') (e : Entity) :
    store'.resolveEntity e = store.resolveEntity e := by
  rw [TypeStore.resolveEntity, TypeStore.resolveEntity, funext h.resolveSlot]

theorem SamePlaces.hasLoose (h : SamePlaces store store') (e : Entity) :
    store'.hasLoose e = store.hasLoose e := by
  rw [TypeStore.hasLoose, TypeStore.hasLoose, isLoose_congr h.resolveSlot]

end

/-- A new shape in a slot keeps all places, if it is a placeholder just when
the old one is. -/
theorem samePlaces_setShape {store : TypeStore} {slot : Slot} {e : Entity} {shape : Shape}
    (he : store.entity? slot = some e) (hshape : shape.isPlaceholder = e.shape.isPlaceholder) :
    SamePlaces store (store.setShape slot shape) where
  index := rfl
  pointerSize := rfl
  size := size_slots_setShape store slot shape
  keyAt? := keyAt?_setShape store slot shape
  isPlaceholder := by
    intro other
    rw [isPlaceholder, isPlaceholder, entity?_setShape]
    by_cases h : slot = other
    · subst h
      rw [if_pos rfl, he]
      exact hshape
    · rw [if_neg h]

/-! ## The stand-in -/

theorem setShape_setShape (store : TypeStore) (slot : Slot) (first second : Shape) :
    (store.setShape slot first).setShape slot second = store.setShape slot second := by
  apply ext_entity?
  · rfl
  · rfl
  · intro other
    simp only [entity?_setShape]
    split
    · rw [Option.map_map]
      rfl
    · rfl

/-- A reference to the entity that is being resolved sees the stand-in, a
placeholder of a registered key, and stays where it is. -/
theorem resolveSlot_standIn {store : TypeStore} {key : TypeKey} {slot : Slot} {e : Entity}
    (hkey : store.lookup key = some slot) (he : store.entity? slot = some e) (hk : e.key = key)
    (ref : Slot) :
    (store.setShape slot .placeholder).resolveSlot ref = store.resolveSlot ref := by
  by_cases href : slot = ref
  · subst href
    have hstand : (store.setShape slot .placeholder).entity? slot =
        some { key, shape := .placeholder } := by
      rw [entity?_setShape, if_pos rfl, he, Option.map_some, hk]
    subst hk
    rw [resolveSlot_of_placeholder hstand hkey, resolveSlot_of_current he hkey]
  · unfold resolveSlot
    rw [entity?_setShape, if_neg href]
    rfl

/-- The stand-in makes no difference to the entity that is resolved. -/
theorem resolveKey_eq {store : TypeStore} (h : Indexed store) {key : TypeKey} {slot : Slot}
    {e : Entity} (hkey : store.lookup key = some slot) (he : store.entity? slot = some e)
    (hk : e.key = key) :
    store.resolveKey key =
      (store.hasLoose e, store.setShape slot (store.resolveEntity e).shape) := by
  have hrefs := resolveSlot_standIn hkey he hk
  have hrun := Resolving.run_shape (indexed_setShape h slot .placeholder) e.shape
  rw [funext hrefs, isLoose_congr hrefs] at hrun
  simp only [resolveKey, hkey, he, hrun, setShape_setShape]
  rfl

/-! ## Resolved entities -/

theorem refs_resolveEntity (store : TypeStore) (e : Entity) :
    (store.resolveEntity e).refs = e.refs.map store.resolveSlot :=
  Shape.refs_mapRefs store.resolveSlot e.shape

theorem hasLoose_eq_false_iff {store : TypeStore} {e : Entity} :
    store.hasLoose e = false ↔ ∀ r ∈ e.refs, store.resolveSlot r = r := by
  simp [hasLoose, isLoose]

/-- An entity without loose references is resolved. -/
theorem resolveEntity_of_not_loose {store : TypeStore} {e : Entity}
    (h : store.hasLoose e = false) : store.resolveEntity e = e := by
  have hshape : e.shape.mapRefs store.resolveSlot = e.shape :=
    Shape.mapRefs_eq_self (hasLoose_eq_false_iff.mp h)
  rw [resolveEntity, Entity.mapRefs, hshape]

/-- A loose reference is one that the resolution changes. -/
theorem hasLoose_iff_refs_ne {store : TypeStore} {e : Entity} :
    store.hasLoose e = true ↔ (store.resolveEntity e).refs ≠ e.refs := by
  constructor
  · intro h hsame
    rw [refs_resolveEntity] at hsame
    have hstay : store.hasLoose e = false := by
      apply hasLoose_eq_false_iff.mpr
      apply List.map_inj_left.mp
      rw [hsame, List.map_id']
    rw [hstay] at h
    cases h
  · intro h
    by_contra hn
    rw [Bool.not_eq_true] at hn
    exact h (by rw [resolveEntity_of_not_loose hn])

theorem not_hasLoose_resolveEntity {store : TypeStore} (h : Indexed store) (e : Entity) :
    store.hasLoose (store.resolveEntity e) = false := by
  apply hasLoose_eq_false_iff.mpr
  intro r hr
  rw [refs_resolveEntity] at hr
  obtain ⟨r, -, rfl⟩ := List.mem_map.mp hr
  exact resolveSlot_resolveSlot h r

end TypeStore

end BinaryAtlas
