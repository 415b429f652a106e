-- The store of types. Every entity gets a slot of its own and keeps it; the
-- index says which slot a key stands for now. A key that is asked for is
-- never missing: pointers and arrays are made from their names, and any other
-- unknown name gets a placeholder.
import BinaryAtlas.TypeGraph.Entity
import BinaryAtlas.TypeGraph.Name

namespace BinaryAtlas

structure TypeStore where
  pointerSize : UInt32
  slots : Array Entity := #[]
  index : Std.ExtTreeMap TypeKey Slot := ∅

namespace TypeStore

/-! ## Looking up -/

def entity? (store : TypeStore) (slot : Slot) : Option Entity := store.slots[slot]?

/-- The slot that a key stands for. -/
def lookup (store : TypeStore) (key : TypeKey) : Option Slot := store.index[key]?

/-- The entity that a key stands for. -/
def byKey? (store : TypeStore) (key : TypeKey) : Option Entity :=
  (store.lookup key).bind store.entity?

/-- The registered keys, ascending. -/
def keys (store : TypeStore) : List TypeKey := store.index.keys

def size (store : TypeStore) : Nat := store.index.size

def isPlaceholder (store : TypeStore) (slot : Slot) : Bool :=
  match store.entity? slot with
  | some e => e.shape.isPlaceholder
  | none => false

/-- The registered keys that stand for placeholders, ascending. -/
def unresolved (store : TypeStore) : List TypeKey :=
  store.keys.filter fun key =>
    match store.lookup key with
    | some slot => store.isPlaceholder slot
    | none => false

/-! ## Adding -/

/-- One more entity, in a slot of its own. Its key stands for it from now on;
an entity that the key stood for before keeps its slot. -/
def add (store : TypeStore) (e : Entity) : Slot × TypeStore :=
  (store.slots.size,
    { store with
      slots := store.slots.push e
      index := store.index.insert e.key store.slots.size })

/-- The slot of a key, after the entity for it has been made if it has to be. -/
def getOr (store : TypeStore) (key : TypeKey) (make : TypeStore → Shape × TypeStore) :
    Slot × TypeStore :=
  match store.lookup key with
  | some slot => (slot, store)
  | none =>
    let (shape, store) := make store
    store.add { key, shape }

/-- The slot of a key, which gets a placeholder if it has none. -/
def getOrPlaceholder (store : TypeStore) (key : TypeKey) : Slot × TypeStore :=
  store.getOr key fun store => (.placeholder, store)

/-- The key of text. -/
def stringKey : TypeKey := .root "string"

/-- The slot of a name in a scope. What the name spells is made from the
inside out, as far as it is missing. -/
def getName (scope : String) : TypeName → TypeStore → Slot × TypeStore
  | .plain name, store => store.getOrPlaceholder { scope, name }
  | .charPointer, store =>
    store.getOr { scope, name := TypeName.charPointer.spelling } fun store =>
      let (pointee, store) := store.getOrPlaceholder stringKey
      (.pointer pointee, store)
  | .pointer name pointee, store =>
    store.getOr { scope, name } fun store =>
      let (pointee, store) := getName scope pointee store
      (.pointer pointee, store)
  | .array name element count, store =>
    store.getOr { scope, name } fun store =>
      let (element, store) := getName scope element store
      (.array element count, store)

/-- The slot of a key, after its entity has been made if it is missing. -/
def get (store : TypeStore) (key : TypeKey) : Slot × TypeStore :=
  getName key.scope (.ofChars key.name.toList) store

/-! ## Changing entities in place -/

/-- The entity of a slot with another shape. -/
def setShape (store : TypeStore) (slot : Slot) (shape : Shape) : TypeStore :=
  { store with slots := store.slots.modify slot fun e => { e with shape } }

end TypeStore

/-! ## Visiting all keys -/

/-- An order in which the registered keys of a store are visited, each once. Which one
it is, is left open: an index may tell its keys in any order. -/
structure VisitOrder where
  keys : TypeStore → List TypeKey
  perm (store : TypeStore) : (keys store).Perm store.keys

namespace VisitOrder

def ascending : VisitOrder where
  keys := TypeStore.keys
  perm store := .refl store.keys

def descending : VisitOrder where
  keys store := store.keys.reverse
  perm store := List.reverse_perm store.keys

end VisitOrder

end BinaryAtlas
