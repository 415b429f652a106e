-- Resolving references. A reference to the placeholder of a key moves to the
-- slot that the key stands for now.
import BinaryAtlas.TypeGraph.Store

namespace BinaryAtlas

namespace TypeStore

/-! ## One reference -/

/-- The slot that a reference should have: of a placeholder, the slot of its
key, and of any other entity its own. -/
def resolveSlot (store : TypeStore) (slot : Slot) : Slot :=
  match store.entity? slot with
  | some { key, shape := .placeholder } => (store.lookup key).getD slot
  | _ => slot

/-- A reference that is not where it should be. -/
def isLoose (store : TypeStore) (slot : Slot) : Bool := store.resolveSlot slot != slot

/-! ## One entity -/

/-- The entity with its references resolved, those of directives among them. -/
def resolveEntity (store : TypeStore) (e : Entity) : Entity := e.mapRefs store.resolveSlot

/-- Some reference of the entity is loose. -/
def hasLoose (store : TypeStore) (e : Entity) : Bool := e.refs.any store.isLoose

end TypeStore

/-! ## In place -/

/-- A resolution under way: the store, and whether a reference has moved. -/
structure Resolving where
  store : TypeStore
  moved : Bool := false

/-- One reference. The key of a placeholder is asked for, and the reference
moves to the slot of the answer. -/
def Resolving.ref (slot : Slot) : StateM Resolving Slot := fun r =>
  match r.store.entity? slot with
  | some { key, shape := .placeholder } =>
    let (found, store) := r.store.get key
    (found, { store, moved := r.moved || found != slot })
  | _ => (slot, r)

namespace TypeStore

/-- The store with the references of one key's entity resolved, and whether
one of them moved. While they are resolved, a placeholder stands in the slot
of the entity. -/
def resolveKey (store : TypeStore) (key : TypeKey) : Bool × TypeStore :=
  match store.lookup key with
  | none => (false, store)
  | some slot =>
    match store.entity? slot with
    | none => (false, store)
    | some e =>
      let (shape, r) := (e.shape.mapRefsM Resolving.ref).run
        { store := store.setShape slot .placeholder }
      (r.moved, r.store.setShape slot shape)

/-- The keys one after the other, and whether any reference moved. -/
def resolveKeys (store : TypeStore) : List TypeKey → Bool × TypeStore
  | [] => (false, store)
  | key :: keys =>
    let (changed, store) := store.resolveKey key
    let (changed', store) := store.resolveKeys keys
    (changed || changed', store)

/-- The references of all registered types. -/
def resolve (store : TypeStore) : Bool × TypeStore := store.resolveKeys store.keys

end TypeStore

end BinaryAtlas
