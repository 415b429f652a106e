-- The laws of all histories of a store. Additions, requests and resolutions may
-- come in any order and as often as one likes: the index and the slots agree
-- after each of them, every reference leads somewhere, and a slot that was
-- given once is there for good, with the same key.
import BinaryAtlas.Proofs.ResolveAll
import Mathlib.Logic.Relation

namespace BinaryAtlas.TypeStore

/-! ## Histories -/

/-- One operation on a store. The references of what is added are slots of the
store. A resolution takes some keys, in any order. -/
inductive Step : TypeStore → TypeStore → Prop
  | add {store : TypeStore} {e : Entity} :
      (∀ r ∈ e.refs, r < store.slots.size) → Step store (store.add e).2
  | get (store : TypeStore) (key : TypeKey) : Step store (store.get key).2
  | resolveRef (store : TypeStore) (slot : Slot) :
      Step store ((Resolving.ref slot).run { store }).2.store
  | resolveKeys (store : TypeStore) (order : List TypeKey) :
      Step store (store.resolveKeys order).2

/-- The second store comes from the first one by any number of operations. -/
abbrev Later : TypeStore → TypeStore → Prop := Relation.ReflTransGen Step

/-- The store has a history, from the empty store or from the builtin types. -/
def Reached (store : TypeStore) : Prop :=
  ∃ pointerSize, Later (empty pointerSize) store ∨ Later (withBuiltins pointerSize) store

/-! ## One operation -/

/-- The slots of the first store are in the second one, with the same keys. -/
def KeepsSlots (store store' : TypeStore) : Prop :=
  ∀ slot key, store.keyAt? slot = some key → store'.keyAt? slot = some key

theorem KeepsSlots.size_le {store store' : TypeStore} (h : KeepsSlots store store') :
    store.slots.size ≤ store'.slots.size := by
  by_contra hlt
  rw [Nat.not_le] at hlt
  have hkey := h _ _ (keyAt?_of_lt hlt)
  exact Nat.lt_irrefl _ (lt_of_keyAt? hkey)

/-- What holds of every store with a history. -/
structure Kept (store : TypeStore) : Prop where
  indexed : Indexed store
  closed : Closed store

theorem Step.keepsSlots {store store' : TypeStore} (hstep : Step store store')
    (hi : Indexed store) : KeepsSlots store store' := by
  intro slot key hkey
  cases hstep with
  | add _ => exact keyAt?_add hkey
  | get key => exact (get_gets store key).grows.extends_.keyAt? hkey
  | resolveRef ref =>
    rw [Resolving.run_ref hi]
    exact hkey
  | resolveKeys order =>
    rw [(resolveKeys_resolves hi order).places.keyAt?]
    exact hkey

theorem Step.kept {store store' : TypeStore} (hstep : Step store store') (h : Kept store) :
    Kept store' := by
  obtain ⟨hi, hc⟩ := h
  cases hstep with
  | add hrefs => exact ⟨indexed_add hi _, closed_add hc hrefs⟩
  | get key =>
    have hgrows := (get_gets store key).grows
    exact ⟨hgrows.indexed hi, hgrows.closed hi hc⟩
  | resolveRef ref =>
    rw [Resolving.run_ref hi]
    exact ⟨hi, hc⟩
  | resolveKeys order =>
    have hr := resolveKeys_resolves hi order
    exact ⟨hr.places.indexed hi, hr.closed hi hc⟩

/-! ## All operations -/

theorem Later.kept {store later : TypeStore} (hlater : Later store later) (h : Kept store) :
    Kept later ∧ KeepsSlots store later := by
  induction hlater with
  | refl => exact ⟨h, fun _ _ => id⟩
  | tail _ hstep ih =>
    obtain ⟨hkept, hslots⟩ := ih
    refine ⟨hstep.kept hkept, fun slot key hkey => ?_⟩
    exact hstep.keepsSlots hkept.indexed slot key (hslots slot key hkey)

theorem Reached.kept {store : TypeStore} (h : Reached store) : Kept store := by
  obtain ⟨pointerSize, hlater | hlater⟩ := h
  · exact (hlater.kept ⟨indexed_empty pointerSize, closed_empty pointerSize⟩).1
  · exact (hlater.kept ⟨indexed_withBuiltins pointerSize, closed_withBuiltins pointerSize⟩).1

/-- After any history, a registered key stands for a slot of the store that has
this very key; the key of every slot is registered, also of one that its key
does not stand for any more; and every reference of every entity is a slot of
the store. Whatever comes later, no slot goes away or gets another key. -/
theorem every_history_keeps_index_and_slots {store : TypeStore} (h : Reached store) :
    (∀ key slot, store.lookup key = some slot →
      slot < store.slots.size ∧ store.keyAt? slot = some key) ∧
    (∀ slot < store.slots.size, ∃ key, store.keyAt? slot = some key ∧ key ∈ store.keys) ∧
    (∀ slot e, store.entity? slot = some e → ∀ r ∈ e.refs, r < store.slots.size) ∧
    ∀ later, Later store later → store.slots.size ≤ later.slots.size ∧
      ∀ slot < store.slots.size, later.keyAt? slot = store.keyAt? slot := by
  have hkept := h.kept
  refine ⟨?_, ?_, hkept.closed, ?_⟩
  · intro key slot hkey
    have hslot := hkept.indexed.keyAt?_of_lookup hkey
    exact ⟨lt_of_keyAt? hslot, hslot⟩
  · intro slot hslot
    have hknown := hkept.indexed.known (Array.getElem?_eq_getElem hslot)
    exact ⟨_, keyAt?_of_lt hslot, mem_keys.mpr hknown⟩
  · intro later hlater
    obtain ⟨-, hslots⟩ := hlater.kept hkept
    refine ⟨hslots.size_le, fun slot hslot => ?_⟩
    rw [keyAt?_of_lt hslot]
    exact hslots slot _ (keyAt?_of_lt hslot)

/-- A struct that refers to itself through a pointer and through a directive,
and that is replaced after a resolution. -/
def changedStore : TypeStore :=
  let store := ((empty 4).get (.root "A *")).2
  let next : Member :=
    { name := "next", type := 1, offset := 0, size := 4,
      directives := [.child "first" (.pointsTo "A" 0)] }
  let store := (store.add { key := .root "A", shape := .struct { size := 4, members := [next] } }).2
  let store := ((Resolving.ref 0).run { store }).2.store
  let store := (store.resolveKeys store.keys).2
  (store.add { key := .root "A", shape := .primitive 2 }).2

theorem a_replaced_struct_keeps_its_slot : Reached changedStore ∧
    changedStore.lookup (.root "A") = some 3 ∧
    (changedStore.entity? 2).map Entity.refs = some [2, 1] ∧
    changedStore.resolve.2.keyAt? 2 = some (.root "A") := by
  have hreached : Reached changedStore := by
    refine ⟨4, .inl ?_⟩
    refine .tail (.tail (.tail (.tail (.tail .refl (.get _ _)) (.add ?_)) (.resolveRef _ _))
      (.resolveKeys _ _)) (.add ?_)
    · decide +kernel
    · decide +kernel
  have hlater : Later changedStore changedStore.resolve.2 := .single (.resolveKeys _ _)
  have hkept := (every_history_keeps_index_and_slots hreached).2.2.2 _ hlater
  refine ⟨hreached, by decide +kernel, by decide +kernel, ?_⟩
  rw [hkept.2 2 (by decide +kernel)]
  decide +kernel

end BinaryAtlas.TypeStore
