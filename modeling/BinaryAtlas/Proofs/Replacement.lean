-- The laws of types that replace others. A key that is declared again stands
-- for the new type, and the old one keeps its slot. The resolution moves the
-- references to placeholders of the key; a reference to a type that has been
-- replaced stays with the old type.
import BinaryAtlas.Proofs.ResolveAll

namespace BinaryAtlas.TypeStore

/-! ## Slots that keys stand for -/

/-- The slot holds the type that its key stands for. -/
def IsCurrent (store : TypeStore) (slot : Slot) : Prop :=
  ∃ key, store.keyAt? slot = some key ∧ store.lookup key = some slot

theorem isCurrent_iff_of_entity? {store : TypeStore} {slot : Slot} {e : Entity}
    (he : store.entity? slot = some e) :
    IsCurrent store slot ↔ store.lookup e.key = some slot := by
  have hkey : store.keyAt? slot = some e.key := by rw [keyAt?, he, Option.map_some]
  constructor
  · rintro ⟨key, hk, hlookup⟩
    obtain rfl := Option.some.inj (hkey.symm.trans hk)
    exact hlookup
  · exact fun h => ⟨e.key, hkey, h⟩

theorem isCurrent_of_lookup {store : TypeStore} (h : Indexed store) {key : TypeKey} {slot : Slot}
    (hkey : store.lookup key = some slot) : IsCurrent store slot := by
  obtain ⟨e, he, rfl⟩ := h.registered hkey
  exact (isCurrent_iff_of_entity? he).mpr hkey

theorem SamePlaces.isCurrent_iff {store store' : TypeStore} (h : SamePlaces store store')
    (slot : Slot) : IsCurrent store' slot ↔ IsCurrent store slot := by
  unfold IsCurrent
  simp only [h.keyAt?, h.lookup]

/-- A reference is current after it has been resolved if it led to a
placeholder, and otherwise only if it was current before. -/
theorem isCurrent_resolveSlot_iff {store : TypeStore} (h : Indexed store) (slot : Slot) :
    IsCurrent store (store.resolveSlot slot) ↔
      store.isPlaceholder slot = true ∨ IsCurrent store slot := by
  cases hp : store.isPlaceholder slot with
  | false =>
    rw [resolveSlot_of_not_placeholder hp]
    simp
  | true =>
    obtain ⟨key, he⟩ := isPlaceholder_iff.mp hp
    obtain ⟨target, hkey⟩ := h.known he
    rw [resolveSlot_of_placeholder he hkey]
    simp [isCurrent_of_lookup h hkey]

/-! ## Stores without replaced types -/

/-- Every type that is no placeholder is still the one that its key stands for. -/
def NoneReplaced (store : TypeStore) : Prop :=
  ∀ slot e, store.entity? slot = some e → e.shape.isPlaceholder = false →
    store.lookup e.key = some slot

theorem noneReplaced_add {store : TypeStore} (h : NoneReplaced store) {e : Entity}
    (hkey : ∀ old, store.byKey? e.key = some old → old.shape.isPlaceholder = true) :
    NoneReplaced (store.add e).2 := by
  intro slot e' he' hp
  rw [lookup_add]
  rw [entity?_add] at he'
  split at he'
  · rename_i hslot
    obtain rfl := Option.some.inj he'
    rw [if_pos rfl, hslot]
  · have hold := h slot e' he' hp
    rw [if_neg]
    · exact hold
    · intro he
      have hby : store.byKey? e.key = some e' := byKey?_eq_some.mpr ⟨slot, he ▸ hold, he'⟩
      rw [hkey e' hby] at hp
      cases hp

/-- A type under a new key replaces none. -/
theorem noneReplaced_add_new {store : TypeStore} (h : NoneReplaced store) {e : Entity}
    (hnew : store.lookup e.key = none) : NoneReplaced (store.add e).2 := by
  apply noneReplaced_add h
  intro old hold
  rw [byKey?, hnew] at hold
  cases hold

theorem isCurrent_resolveSlot {store : TypeStore} (hi : Indexed store) (h : NoneReplaced store)
    {slot : Slot} (hslot : slot < store.slots.size) :
    IsCurrent store (store.resolveSlot slot) := by
  rw [isCurrent_resolveSlot_iff hi]
  cases hp : store.isPlaceholder slot with
  | true => exact .inl rfl
  | false =>
    have he : store.entity? slot = some store.slots[slot] := Array.getElem?_eq_getElem hslot
    rw [isPlaceholder, he] at hp
    exact .inr ((isCurrent_iff_of_entity? he).mpr (h slot _ he hp))

/-! ## The whole store -/

/-- After a resolution, all references of registered types are current just
when none of them led to a type that had been replaced. -/
theorem resolving_reaches_all_but_replaced_types {store : TypeStore} (h : Built store)
    {order : List TypeKey} (horder : order.Perm store.keys) :
    (∀ key e, (store.resolveKeys order).2.byKey? key = some e →
      ∀ r ∈ e.refs, IsCurrent (store.resolveKeys order).2 r) ↔
    ∀ key e, store.byKey? key = some e →
      ∀ r ∈ e.refs, store.isPlaceholder r = true ∨ IsCurrent store r := by
  have hi := indexed_of_built h
  have hr := resolveKeys_resolves hi order
  have hsame (e : Entity) : (∀ r ∈ (store.resolveEntity e).refs,
      IsCurrent (store.resolveKeys order).2 r) ↔
        ∀ r ∈ e.refs, store.isPlaceholder r = true ∨ IsCurrent store r := by
    simp only [refs_resolveEntity, List.forall_mem_map, hr.places.isCurrent_iff,
      isCurrent_resolveSlot_iff hi]
  constructor
  · intro hall key e he
    rw [← hsame e]
    apply hall key
    rw [hr.byKey?_all hi horder, he, Option.map_some]
  · intro hall key e he
    rw [hr.byKey?_all hi horder] at he
    obtain ⟨old, hold, rfl⟩ := Option.map_eq_some_iff.mp he
    exact (hsame old).mpr (hall key old hold)

/-- A store where a type takes the place of a placeholder that a type
definition names. -/
def promisedStore : TypeStore :=
  let store := ((empty 4).get (.root "A")).2
  let store := (store.add { key := .root "B", shape := .typedef 0 }).2
  (store.add { key := .root "A", shape := .primitive 2 }).2

theorem a_promised_type_is_reached : Built promisedStore ∧
    ∀ key e, promisedStore.resolve.2.byKey? key = some e →
      ∀ r ∈ e.refs, IsCurrent promisedStore.resolve.2 r := by
  have hbuilt : Built promisedStore := by
    apply Built.add
    · apply Built.add
      · exact .get _ (.empty 4)
      · decide +kernel
    · decide +kernel
  have hall : (promisedStore.keys.all fun key => (promisedStore.byKey? key).all fun e =>
      e.refs.all promisedStore.isPlaceholder) = true := by decide +kernel
  refine ⟨hbuilt, (resolving_reaches_all_but_replaced_types hbuilt (.refl _)).mpr ?_⟩
  intro key e he r hr
  obtain ⟨slot, hkey, -⟩ := byKey?_eq_some.mp he
  have hone := List.all_eq_true.mp hall key (mem_keys.mpr ⟨slot, hkey⟩)
  rw [he] at hone
  exact .inl (List.all_eq_true.mp hone r hr)

/-- A store where a type takes the place of another one that a type definition
names. -/
def replacedStore : TypeStore :=
  let store := ((empty 4).add { key := .root "A", shape := .primitive 1 }).2
  let store := (store.add { key := .root "B", shape := .typedef 0 }).2
  (store.add { key := .root "A", shape := .primitive 2 }).2

/-- The type definition still names the first type of the key, which stands for
the second one. -/
theorem a_replaced_type_keeps_its_references : Built replacedStore ∧
    (replacedStore.resolve.2.byKey? (.root "B")).map Entity.refs = some [0] ∧
    replacedStore.resolve.2.keyAt? 0 = some (.root "A") ∧
    replacedStore.resolve.2.lookup (.root "A") = some 2 := by
  refine ⟨?_, by decide +kernel, by decide +kernel, by decide +kernel⟩
  apply Built.add
  · apply Built.add
    · apply Built.add
      · exact .empty 4
      · decide +kernel
    · decide +kernel
  · decide +kernel

end BinaryAtlas.TypeStore
