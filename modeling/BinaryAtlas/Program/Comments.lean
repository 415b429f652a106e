-- Directives of members. The comments of all struct and union members are
-- read once all types are declared, and the directives stay with the members.
import BinaryAtlas.Directive.Scanner
import BinaryAtlas.TypeGraph.Store

namespace BinaryAtlas.TypeStore

/-! ## Comments -/

/-- The directives of a comment. A type that a directive names is asked for by
its key. -/
def readComment (store : TypeStore) (comment : String) : List (Directive Slot) × TypeStore :=
  Directive.parse (fun key store => store.get key) comment.toList store

/-- A member with the directives of its comment. -/
def attachMember (store : TypeStore) (m : Member) : Member × TypeStore :=
  match m.comment with
  | none => (m, store)
  | some comment =>
    let (directives, store) := store.readComment comment
    ({ m with directives := m.directives ++ directives }, store)

/-- Members with the directives of their comments, one after the other. -/
def attachMembers : TypeStore → List Member → List Member × TypeStore
  | store, [] => ([], store)
  | store, m :: members =>
    let (m, store) := store.attachMember m
    let (members, store) := attachMembers store members
    (m :: members, store)

/-! ## The whole store -/

/-- The store with the directives of one key's members. -/
def attachKey (store : TypeStore) (key : TypeKey) : TypeStore :=
  match store.lookup key with
  | none => store
  | some slot =>
    match store.entity? slot with
    | none => store
    | some e =>
      match e.shape.layout? with
      | none => store
      | some layout =>
        let (members, store) := store.attachMembers layout.members
        store.setShape slot (e.shape.withLayout { layout with members })

/-- The store with the directives of the members of some keys, visited one after the
other. Types that their comments name get slots on the way, so the order of the visits
shows in the slots. -/
def attachDirectives (store : TypeStore) (keys : List TypeKey) : TypeStore :=
  keys.foldl attachKey store

end BinaryAtlas.TypeStore
