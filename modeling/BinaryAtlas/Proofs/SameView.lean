-- Stores that say the same. The slot of a type depends on the order of
-- requests and additions, so stores are compared by what they say of each key
-- when every reference is exchanged for a number of its key. The numbers are
-- left open: what is the same for all of them is the same but for slots.
import BinaryAtlas.Proofs.Requests
import Mathlib.Data.List.Basic

namespace BinaryAtlas

/-- Lists that are the same under all numbers are the same. -/
theorem eq_of_map_number {α : Type} {xs ys : List α}
    (h : ∀ number : α → Nat, xs.map number = ys.map number) : xs = ys := by
  classical
  apply List.ext_getElem
  · have hlength := congrArg List.length (h fun _ => 0)
    rwa [List.length_map, List.length_map] at hlength
  · intro i hx hy
    have hmap := congrArg (fun numbers => numbers[i]?) (h fun x => if x = xs[i] then 1 else 0)
    simp only [List.getElem?_map, List.getElem?_eq_getElem hx, List.getElem?_eq_getElem hy,
      Option.map_some, if_true, Option.some.injEq] at hmap
    split at hmap
    · rename_i heq
      exact heq.symm
    · cases hmap

/-- The type that a key spells, with a number in the place of its reference. -/
def Entity.spelled (number : Option TypeKey → Slot) (key : TypeKey) : Entity :=
  { key, shape := .spelled number key }

namespace TypeStore

/-! ## Numbers for references -/

/-- The entity with the number of its key in the place of each reference. -/
def numbered (store : TypeStore) (number : Option TypeKey → Slot) (e : Entity) : Entity :=
  e.mapRefs fun r => number (store.keyAt? r)

/-- What a key stands for, in numbers. -/
def view (store : TypeStore) (number : Option TypeKey → Slot) (key : TypeKey) : Option Entity :=
  (store.byKey? key).map (store.numbered number)

theorem numbered_congr {store store' : TypeStore} {e : Entity}
    (h : ∀ r ∈ e.refs, store'.keyAt? r = store.keyAt? r) (number : Option TypeKey → Slot) :
    store'.numbered number e = store.numbered number e := by
  unfold numbered Entity.mapRefs
  rw [Shape.mapRefs_congr fun r hr => by rw [h r hr]]

/-- Two entities, each of its own store, that say the same. -/
def Matches (store store' : TypeStore) (e e' : Entity) : Prop :=
  ∀ number, store'.numbered number e' = store.numbered number e

section

variable {store store' : TypeStore} {e e' : Entity}

theorem Matches.key (h : Matches store store' e e') : e'.key = e.key := by
  have hkey := congrArg Entity.key (h fun _ => 0)
  exact hkey

theorem Matches.blank (h : Matches store store' e e') : e'.blank = e.blank := h fun _ => 0

theorem Matches.kind (h : Matches store store' e e') : e'.kind = e.kind := by
  have hkind := congrArg Entity.kind (h fun _ => 0)
  simpa [numbered, Entity.mapRefs, Entity.kind] using hkind

/-- References at the same places have the same keys. -/
theorem Matches.refs (h : Matches store store' e e') :
    e'.refs.map store'.keyAt? = e.refs.map store.keyAt? := by
  apply eq_of_map_number
  intro number
  have hrefs := congrArg Entity.refs (h number)
  simpa [numbered, Entity.mapRefs, Entity.refs, Shape.refs_mapRefs, Function.comp_def] using hrefs

end

/-! ## Sound stores -/

/-- What holds of a store all through a load. -/
structure Sound (store : TypeStore) : Prop where
  indexed : Indexed store
  closed : Closed store
  innerKnown : InnerKnown store
  noneReplaced : NoneReplaced store

theorem Requested.sound {asked : TypeKey → Prop} {store store' : TypeStore}
    (h : Requested asked store store') (hs : Sound store) : Sound store' where
  indexed := h.grows.indexed hs.indexed
  closed := h.grows.closed hs.indexed hs.closed
  innerKnown := h.innerKnown hs.innerKnown
  noneReplaced := h.noneReplaced hs.noneReplaced

theorem Sound.refs_lt {store : TypeStore} (h : Sound store) {key : TypeKey} {e : Entity}
    (he : store.byKey? key = some e) : ∀ r ∈ e.refs, r < store.slots.size := by
  obtain ⟨slot, -, hslot⟩ := byKey?_eq_some.mp he
  exact h.closed slot e hslot

/-- Slots keep their keys in stores that have more. -/
theorem Extends.keyAt?_of_lt {store store' : TypeStore} (h : Extends store store') {slot : Slot}
    (hslot : slot < store.slots.size) : store'.keyAt? slot = store.keyAt? slot := by
  have hkey := TypeStore.keyAt?_of_lt hslot
  rw [hkey]
  exact h.keyAt? hkey

theorem Extends.lt_size {store next : TypeStore} (h : Extends store next) {slot : Slot}
    (hslot : slot < store.slots.size) : slot < next.slots.size :=
  lt_of_keyAt? (h.keyAt? (TypeStore.keyAt?_of_lt hslot))

/-! ## Views of requests -/

section

variable {store next : TypeStore} {asked : TypeKey → Prop} {number : Option TypeKey → Slot}
  {key : TypeKey} {e : Entity}

theorem view_eq_some :
    store.view number key = some e ↔
      ∃ old, store.byKey? key = some old ∧ store.numbered number old = e :=
  Option.map_eq_some_iff

theorem view_eq_none (hi : Indexed store) : store.view number key = none ↔ key ∉ store.keys := by
  rw [mem_keys_iff_byKey? hi, view, Option.map_eq_none_iff, Option.eq_none_iff_forall_ne_some,
    not_exists]

/-- Requests leave all types as they are. -/
theorem Requested.view_of_some (h : Requested asked store next) (hs : Sound store)
    (he : store.view number key = some e) : next.view number key = some e := by
  obtain ⟨old, hold, rfl⟩ := view_eq_some.mp he
  refine view_eq_some.mpr ⟨old, h.grows.extends_.byKey? hold, numbered_congr ?_ number⟩
  exact fun r hr => h.grows.extends_.keyAt?_of_lt (hs.refs_lt hold r hr)

/-- Requests add what their keys spell. -/
theorem Requested.view_of_none (h : Requested asked store next) (hs : Sound store)
    (hnone : store.view number key = none) :
    next.view number key = some e ↔ e = .spelled number key ∧ asked key := by
  have hnew := (view_eq_none hs.indexed).mp hnone
  have hi := h.grows.indexed hs.indexed
  have hspelled {made : Entity} (hmade : next.byKey? key = some made) :
      next.numbered number made = .spelled number key := by
    rw [numbered, Entity.mapRefs, (h.made key made hmade hnew).numbered, hi.key_of_byKey? hmade]
    rfl
  constructor
  · intro he
    obtain ⟨made, hmade, rfl⟩ := view_eq_some.mp he
    have hkey := (h.keys key).mp ((mem_keys_iff_byKey? hi).mpr ⟨made, hmade⟩)
    exact ⟨hspelled hmade, hkey.resolve_left hnew⟩
  · rintro ⟨rfl, hkey⟩
    obtain ⟨made, hmade⟩ := (mem_keys_iff_byKey? hi).mp ((h.keys key).mpr (.inr hkey))
    exact view_eq_some.mpr ⟨made, hmade, hspelled hmade⟩

end

/-! ## Similar stores -/

/-- Two sound stores that say the same of each key. -/
structure Similar (store store' : TypeStore) : Prop where
  sound : Sound store
  sound' : Sound store'
  pointerSize : store'.pointerSize = store.pointerSize
  view : ∀ number key, store'.view number key = store.view number key

section

variable {store store' : TypeStore}

theorem Similar.byKey? (h : Similar store store') {key : TypeKey} {e : Entity}
    (he : store.byKey? key = some e) :
    ∃ e', store'.byKey? key = some e' ∧ Matches store store' e e' := by
  have hview (number : Option TypeKey → Slot) :
      (store'.byKey? key).map (store'.numbered number) = some (store.numbered number e) := by
    have hboth := h.view number key
    rwa [TypeStore.view, TypeStore.view, he] at hboth
  cases he' : store'.byKey? key with
  | none =>
    have hnone := hview fun _ => 0
    rw [he'] at hnone
    cases hnone
  | some e' =>
    refine ⟨e', rfl, fun number => ?_⟩
    have hsome := hview number
    rw [he'] at hsome
    exact Option.some.inj hsome

theorem Similar.byKey?_none (h : Similar store store') {key : TypeKey}
    (he : store.byKey? key = none) : store'.byKey? key = none := by
  have hboth := h.view (fun _ => 0) key
  rw [TypeStore.view, TypeStore.view, he] at hboth
  exact Option.map_eq_none_iff.mp hboth

theorem Similar.mem_keys (h : Similar store store') (key : TypeKey) :
    key ∈ store'.keys ↔ key ∈ store.keys := by
  rw [mem_keys_iff_byKey? h.sound.indexed, mem_keys_iff_byKey? h.sound'.indexed]
  cases he : store.byKey? key with
  | none => simp [h.byKey?_none he]
  | some e =>
    obtain ⟨e', he', -⟩ := h.byKey? he
    simp [he']

/-- The same keys are registered. -/
theorem Similar.keys (h : Similar store store') : store'.keys = store.keys := by
  have hordered (store : TypeStore) :
      store.keys.Pairwise fun a b => compare a b = .lt := store.index.ordered_keys
  have hnodup (store : TypeStore) : store.keys.Nodup := by
    refine (hordered store).imp fun hlt heq => ?_
    subst heq
    simp at hlt
  have hperm : store'.keys.Perm store.keys :=
    (List.perm_ext_iff_of_nodup (hnodup store') (hnodup store)).mpr h.mem_keys
  refine hperm.eq_of_pairwise ?_ (hordered store') (hordered store)
  intro a b _ _ hab hba
  exact absurd hba (Std.OrientedCmp.not_lt_of_lt hab)

/-- Requests that ask both for the same. -/
theorem Similar.requested {asked : TypeKey → Prop} {next next' : TypeStore}
    (h : Similar store store') (hnext : Requested asked store next)
    (hnext' : Requested asked store' next') : Similar next next' where
  sound := hnext.sound h.sound
  sound' := hnext'.sound h.sound'
  pointerSize := by
    rw [hnext.grows.extends_.pointerSize, hnext'.grows.extends_.pointerSize, h.pointerSize]
  view := by
    intro number key
    have hview := h.view number key
    cases hold : store.view number key with
    | some e =>
      rw [hnext.view_of_some h.sound hold, hnext'.view_of_some h.sound' (hview.trans hold)]
    | none =>
      ext e
      rw [hnext.view_of_none h.sound hold, hnext'.view_of_none h.sound' (hview.trans hold)]

/-- The same request to both. -/
theorem Similar.get (h : Similar store store') (key : TypeKey) :
    Similar (store.get key).2 (store'.get key).2 :=
  h.requested (get_requested h.sound.indexed h.sound.innerKnown key)
    (get_requested h.sound'.indexed h.sound'.innerKnown key)

/-- The answers to the same request have the same key. -/
theorem Similar.sameKey_get (h : Similar store store') (key : TypeKey) :
    SameKey (store.get key).2 (store'.get key).2 (store.get key).1 (store'.get key).1 :=
  ⟨key, keyAt?_get h.sound.indexed key, keyAt?_get h.sound'.indexed key⟩

theorem SameKey.extends_ {next next' : TypeStore} {r r' : Slot} (h : SameKey store store' r r')
    (hext : Extends store next) (hext' : Extends store' next') : SameKey next next' r r' := by
  obtain ⟨key, hr, hr'⟩ := h
  exact ⟨key, hext.keyAt? hr, hext'.keyAt? hr'⟩

/-! ## Changes in place -/

/-- A change in place keeps a store sound, if it makes no placeholder and no
type of one. -/
theorem sound_setShape (h : Sound store) {slot : Slot} {e : Entity} {shape : Shape}
    (he : store.entity? slot = some e) (hrefs : ∀ r ∈ shape.refs, r < store.slots.size)
    (hplaceholder : shape.isPlaceholder = e.shape.isPlaceholder) :
    Sound (store.setShape slot shape) where
  indexed := indexed_setShape h.indexed slot shape
  innerKnown := h.innerKnown
  closed := by
    intro other changed hchanged r hr
    rw [size_slots_setShape]
    rw [entity?_setShape] at hchanged
    split at hchanged
    · obtain ⟨old, -, rfl⟩ := Option.map_eq_some_iff.mp hchanged
      exact hrefs r hr
    · exact h.closed other changed hchanged r hr
  noneReplaced := by
    intro other changed hchanged hp
    rw [lookup_setShape]
    rw [entity?_setShape] at hchanged
    split at hchanged
    · rename_i hslot
      subst hslot
      rw [he, Option.map_some, Option.some.injEq] at hchanged
      subst hchanged
      exact h.noneReplaced slot e he (hplaceholder.symm.trans hp)
    · exact h.noneReplaced other changed hchanged hp

/-- A change in place is seen under the key of the slot only. -/
theorem view_setShape (h : Indexed store) {key : TypeKey} {slot : Slot} {e : Entity}
    (hkey : store.lookup key = some slot) (he : store.entity? slot = some e) (shape : Shape)
    (number : Option TypeKey → Slot) (other : TypeKey) :
    (store.setShape slot shape).view number other =
      if key = other then some (store.numbered number { e with shape })
      else store.view number other := by
  have hnumbered (e : Entity) :
      (store.setShape slot shape).numbered number e = store.numbered number e :=
    numbered_congr (fun r _ => keyAt?_setShape store slot shape r) number
  unfold view
  rw [byKey?_setShape h hkey he]
  split
  · rw [Option.map_some, hnumbered]
  · rw [funext hnumbered]

end

end TypeStore

end BinaryAtlas
