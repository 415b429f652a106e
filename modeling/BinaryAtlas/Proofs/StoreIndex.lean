-- The laws of the store of types. In every store that additions and requests
-- build, the index and the slots agree: a registered key stands for an entity
-- of that key, and the key of every slot is registered. A request takes
-- nothing away, and a request for a registered key changes nothing.
import BinaryAtlas.TypeGraph.Builtin

namespace BinaryAtlas

/-- The kinds of the types that a request may make. -/
def TypeKind.isMade : TypeKind → Bool
  | .pointer | .array | .placeholder => true
  | _ => false

namespace TypeStore

/-- The key of the entity in a slot. -/
def keyAt? (store : TypeStore) (slot : Slot) : Option TypeKey := (store.entity? slot).map Entity.key

theorem byKey?_eq_some {store : TypeStore} {key : TypeKey} {e : Entity} :
    store.byKey? key = some e ↔
      ∃ slot, store.lookup key = some slot ∧ store.entity? slot = some e :=
  Option.bind_eq_some_iff

/-! ## One addition -/

@[simp]
theorem fst_add (store : TypeStore) (e : Entity) : (store.add e).1 = store.slots.size := rfl

theorem entity?_add (store : TypeStore) (e : Entity) (slot : Slot) :
    (store.add e).2.entity? slot =
      if slot = store.slots.size then some e else store.entity? slot := by
  simp only [add, entity?, Array.getElem?_push]

theorem lookup_add (store : TypeStore) (e : Entity) (key : TypeKey) :
    (store.add e).2.lookup key =
      if e.key = key then some store.slots.size else store.lookup key := by
  simp only [add, lookup, Std.ExtTreeMap.getElem?_insert, Std.LawfulEqCmp.compare_eq_iff_eq]

theorem lt_of_entity? {store : TypeStore} {slot : Slot} {e : Entity}
    (h : store.entity? slot = some e) : slot < store.slots.size :=
  (Array.getElem?_eq_some_iff.mp h).1

theorem keyAt?_of_lt {store : TypeStore} {slot : Slot} (h : slot < store.slots.size) :
    store.keyAt? slot = some store.slots[slot].key := by
  rw [keyAt?, entity?, Array.getElem?_eq_getElem h, Option.map_some]

theorem lt_of_keyAt? {store : TypeStore} {slot : Slot} {key : TypeKey}
    (h : store.keyAt? slot = some key) : slot < store.slots.size := by
  obtain ⟨e, he, -⟩ := Option.map_eq_some_iff.mp h
  exact lt_of_entity? he

/-! ## One change in place -/

theorem entity?_setShape (store : TypeStore) (slot : Slot) (shape : Shape) (other : Slot) :
    (store.setShape slot shape).entity? other =
      if slot = other then (store.entity? other).map fun e => { e with shape }
      else store.entity? other := by
  simp only [setShape, entity?, Array.getElem?_modify]

theorem keyAt?_setShape (store : TypeStore) (slot : Slot) (shape : Shape) (other : Slot) :
    (store.setShape slot shape).keyAt? other = store.keyAt? other := by
  rw [keyAt?, keyAt?, entity?_setShape]
  split
  · rw [Option.map_map]
    rfl
  · rfl

@[simp]
theorem lookup_setShape (store : TypeStore) (slot : Slot) (shape : Shape) (key : TypeKey) :
    (store.setShape slot shape).lookup key = store.lookup key := rfl

@[simp]
theorem size_slots_setShape (store : TypeStore) (slot : Slot) (shape : Shape) :
    (store.setShape slot shape).slots.size = store.slots.size := by
  simp [setShape]

/-! ## The invariant of a store -/

structure Indexed (store : TypeStore) : Prop where
  /-- A registered key stands for an entity of that key. -/
  registered : ∀ {key slot}, store.lookup key = some slot →
    ∃ e, store.entity? slot = some e ∧ e.key = key
  /-- The key of every slot is registered. -/
  known : ∀ {slot e}, store.entity? slot = some e → ∃ slot', store.lookup e.key = some slot'

/-- The slot that a key stands for has that key. -/
theorem Indexed.keyAt?_of_lookup {store : TypeStore} (h : Indexed store) {key : TypeKey}
    {slot : Slot} (hkey : store.lookup key = some slot) : store.keyAt? slot = some key := by
  obtain ⟨e, he, rfl⟩ := h.registered hkey
  rw [keyAt?, he, Option.map_some]

theorem Indexed.key_of_byKey? {store : TypeStore} (h : Indexed store) {key : TypeKey} {e : Entity}
    (he : store.byKey? key = some e) : e.key = key := by
  obtain ⟨slot, hslot, he⟩ := byKey?_eq_some.mp he
  have hkey := h.keyAt?_of_lookup hslot
  rw [keyAt?, he, Option.map_some] at hkey
  exact Option.some.inj hkey

theorem indexed_empty (pointerSize : UInt32) : Indexed (empty pointerSize) where
  registered h := by
    simp [empty, lookup] at h
  known h := by
    simp [empty, entity?] at h

theorem indexed_add {store : TypeStore} (h : Indexed store) (e : Entity) :
    Indexed (store.add e).2 where
  registered := by
    intro key slot hkey
    rw [lookup_add] at hkey
    split at hkey
    · rename_i he
      simp only [Option.some.injEq] at hkey
      subst hkey
      exact ⟨e, by rw [entity?_add, if_pos rfl], he⟩
    · obtain ⟨e', he', hk⟩ := h.registered hkey
      have hlt := lt_of_entity? he'
      exact ⟨e', by rw [entity?_add, if_neg (Nat.ne_of_lt hlt)]; exact he', hk⟩
  known := by
    intro slot e' he'
    rw [lookup_add]
    split
    · exact ⟨_, rfl⟩
    · rename_i hne
      rw [entity?_add] at he'
      split at he'
      · simp only [Option.some.injEq] at he'
        exact absurd (congrArg Entity.key he') hne
      · exact h.known he'

theorem byKey?_add {store : TypeStore} (h : Indexed store) (e : Entity) (key : TypeKey) :
    (store.add e).2.byKey? key = if e.key = key then some e else store.byKey? key := by
  rw [byKey?, lookup_add]
  split
  · rw [Option.bind_some, entity?_add, if_pos rfl]
  · rw [byKey?]
    cases hkey : store.lookup key with
    | none => rfl
    | some slot =>
      obtain ⟨e', he', -⟩ := h.registered hkey
      rw [Option.bind_some, Option.bind_some, entity?_add,
        if_neg (Nat.ne_of_lt (lt_of_entity? he'))]

theorem keyAt?_add {store : TypeStore} {e : Entity} {slot : Slot} {key : TypeKey}
    (h : store.keyAt? slot = some key) : (store.add e).2.keyAt? slot = some key := by
  obtain ⟨e', he', hk⟩ := Option.map_eq_some_iff.mp h
  rw [keyAt?, entity?_add, if_neg (Nat.ne_of_lt (lt_of_entity? he')), he', Option.map_some, hk]

/-- A change in place keeps all keys. -/
theorem indexed_setShape {store : TypeStore} (h : Indexed store) (slot : Slot) (shape : Shape) :
    Indexed (store.setShape slot shape) where
  registered := by
    intro key slot' hkey
    obtain ⟨e, he, hk⟩ := h.registered hkey
    rw [entity?_setShape, he]
    split
    · exact ⟨_, rfl, hk⟩
    · exact ⟨e, rfl, hk⟩
  known := by
    intro slot' e he
    rw [entity?_setShape] at he
    split at he
    · obtain ⟨old, hold, rfl⟩ := Option.map_eq_some_iff.mp he
      have hkey := h.known hold
      exact hkey
    · exact h.known he

/-- A change in place is seen under the key of the slot only. -/
theorem byKey?_setShape {store : TypeStore} (h : Indexed store) {key : TypeKey} {slot : Slot}
    {e : Entity} (hkey : store.lookup key = some slot) (he : store.entity? slot = some e)
    (shape : Shape) (other : TypeKey) :
    (store.setShape slot shape).byKey? other =
      if key = other then some { e with shape } else store.byKey? other := by
  unfold byKey?
  rw [lookup_setShape]
  split
  · rename_i hother
    subst hother
    rw [hkey, Option.bind_some, entity?_setShape, if_pos rfl, he, Option.map_some]
  · rename_i hother
    cases hlookup : store.lookup other with
    | none => rfl
    | some slot' =>
      have hne : slot ≠ slot' := by
        rintro rfl
        obtain ⟨_, he₁, rfl⟩ := h.registered hkey
        obtain ⟨_, he₂, rfl⟩ := h.registered hlookup
        rw [he₁] at he₂
        exact hother (congrArg Entity.key (Option.some.inj he₂))
      rw [Option.bind_some, Option.bind_some, entity?_setShape, if_neg hne]

/-! ## The builtin types -/

theorem nodup_keys_entities (pointerSize : UInt32) :
    ((Builtin.entities pointerSize).map Entity.key).Nodup := by
  have hkeys : (Builtin.entities pointerSize).map Entity.key =
      (Builtin.entities 0).map Entity.key := rfl
  rw [hkeys]
  decide +kernel

/-- The builtin types come one by one, and no one replaces another. -/
theorem withBuiltins_induction {pointerSize : UInt32} {P : TypeStore → Prop}
    (hempty : P (empty pointerSize))
    (hadd : ∀ store e, P store → e ∈ Builtin.entities pointerSize → store.lookup e.key = none →
      P (store.add e).2) : P (withBuiltins pointerSize) := by
  have hfold (es : List Entity) (hes : ∀ e ∈ es, e ∈ Builtin.entities pointerSize)
      (hnodup : (es.map Entity.key).Nodup) : ∀ store : TypeStore, P store →
      (∀ e ∈ es, store.lookup e.key = none) →
      P (es.foldl (fun store e => (store.add e).2) store) := by
    induction es with
    | nil => exact fun _ h _ => h
    | cons e es ih =>
      obtain ⟨hother, hnodup⟩ := List.nodup_cons.mp hnodup
      obtain ⟨he, hes⟩ := List.forall_mem_cons.mp hes
      intro store h hnew
      obtain ⟨hfirst, hnew⟩ := List.forall_mem_cons.mp hnew
      apply ih hes hnodup _ (hadd store e h he hfirst)
      intro e' he'
      rw [lookup_add, if_neg]
      · exact hnew e' he'
      · intro hkey
        rw [hkey] at hother
        exact hother (List.mem_map_of_mem he')
  apply hfold _ (fun _ he => he) (nodup_keys_entities pointerSize) _ hempty
  exact fun e _ => Std.ExtTreeMap.getElem?_empty

theorem pointerSize_withBuiltins (pointerSize : UInt32) :
    (withBuiltins pointerSize).pointerSize = pointerSize :=
  withBuiltins_induction (P := fun store => store.pointerSize = pointerSize) rfl
    fun _ _ h _ _ => h

theorem indexed_withBuiltins (pointerSize : UInt32) : Indexed (withBuiltins pointerSize) :=
  withBuiltins_induction (indexed_empty pointerSize) fun _ e h _ _ => indexed_add h e

/-! ## References that lead somewhere -/

/-- Every reference of the store is a slot of it. -/
def Closed (store : TypeStore) : Prop :=
  ∀ slot e, store.entity? slot = some e → ∀ r ∈ e.refs, r < store.slots.size

theorem size_slots_add (store : TypeStore) (e : Entity) :
    (store.add e).2.slots.size = store.slots.size + 1 := Array.size_push _

theorem closed_empty (pointerSize : UInt32) : Closed (empty pointerSize) := by
  intro slot e he
  simp [empty, entity?] at he

theorem closed_add {store : TypeStore} (h : Closed store) {e : Entity}
    (hrefs : ∀ r ∈ e.refs, r < store.slots.size) : Closed (store.add e).2 := by
  intro slot e' he' r hr
  rw [size_slots_add]
  apply Nat.lt_succ_of_lt
  rw [entity?_add] at he'
  split at he'
  · obtain rfl := Option.some.inj he'
    exact hrefs r hr
  · exact h slot e' he' r hr

/-- The builtin types refer to nothing. -/
theorem refs_of_mem_entities {pointerSize : UInt32} {e : Entity}
    (h : e ∈ Builtin.entities pointerSize) : e.refs = [] := by
  rw [Builtin.entities, List.mem_append, List.mem_cons, List.mem_map, List.mem_map] at h
  rcases h with (rfl | ⟨row, -, rfl⟩) | ⟨name, -, rfl⟩
  · rfl
  · rfl
  · rfl

theorem closed_withBuiltins (pointerSize : UInt32) : Closed (withBuiltins pointerSize) := by
  apply withBuiltins_induction (closed_empty pointerSize)
  intro store e h he _
  apply closed_add h
  rw [refs_of_mem_entities he]
  exact nofun

/-! ## Stores that grow -/

/-- The second store has all that the first one has. -/
structure Extends (store store' : TypeStore) : Prop where
  slots : ∀ {slot e}, store.entity? slot = some e → store'.entity? slot = some e
  index : ∀ {key slot}, store.lookup key = some slot → store'.lookup key = some slot
  pointerSize : store'.pointerSize = store.pointerSize

theorem extends_refl (store : TypeStore) : Extends store store := ⟨id, id, rfl⟩

theorem extends_trans {a b c : TypeStore} (hab : Extends a b) (hbc : Extends b c) :
    Extends a c where
  slots h := hbc.slots (hab.slots h)
  index h := hbc.index (hab.index h)
  pointerSize := by rw [hbc.pointerSize, hab.pointerSize]

section

variable {store store' : TypeStore}

theorem Extends.byKey? (h : Extends store store') {key : TypeKey} {e : Entity}
    (he : store.byKey? key = some e) : store'.byKey? key = some e := by
  obtain ⟨slot, hkey, hslot⟩ := byKey?_eq_some.mp he
  exact byKey?_eq_some.mpr ⟨slot, h.index hkey, h.slots hslot⟩

theorem Extends.keyAt? (h : Extends store store') {slot : Slot} {key : TypeKey}
    (hkey : store.keyAt? slot = some key) : store'.keyAt? slot = some key := by
  obtain ⟨e, he, hk⟩ := Option.map_eq_some_iff.mp hkey
  rw [TypeStore.keyAt?, h.slots he, Option.map_some, hk]

end

/-- An addition under a new key takes nothing away. -/
theorem extends_add {store : TypeStore} {e : Entity} (h : store.lookup e.key = none) :
    Extends store (store.add e).2 where
  slots := by
    intro slot e' he'
    rw [entity?_add, if_neg (Nat.ne_of_lt (lt_of_entity? he'))]
    exact he'
  index := by
    intro key slot hkey
    rw [lookup_add, if_neg]
    · exact hkey
    · intro he
      rw [he, hkey] at h
      cases h
  pointerSize := rfl

/-- The second store comes from the first one by additions such as a request
makes. -/
structure Grows (store store' : TypeStore) : Prop where
  extends_ : Extends store store'
  indexed : Indexed store → Indexed store'
  closed : Indexed store → Closed store → Closed store'
  made : ∀ {slot e}, store'.entity? slot = some e →
    store.entity? slot = some e ∨ e.kind.isMade = true

theorem grows_refl (store : TypeStore) : Grows store store :=
  ⟨extends_refl store, id, fun _ h => h, .inl⟩

theorem grows_trans {a b c : TypeStore} (hab : Grows a b) (hbc : Grows b c) : Grows a c where
  extends_ := extends_trans hab.extends_ hbc.extends_
  indexed h := hbc.indexed (hab.indexed h)
  closed hi hc := hbc.closed (hab.indexed hi) (hab.closed hi hc)
  made he := (hbc.made he).elim hab.made .inr

theorem grows_add {store : TypeStore} {e : Entity} (h : store.lookup e.key = none)
    (hmade : e.kind.isMade = true)
    (hrefs : Indexed store → ∀ r ∈ e.refs, r < store.slots.size) : Grows store (store.add e).2 where
  extends_ := extends_add h
  indexed hi := indexed_add hi e
  closed hi hc := closed_add hc (hrefs hi)
  made := by
    intro slot e' he'
    rw [entity?_add] at he'
    split at he'
    · obtain rfl := Option.some.inj he'
      exact .inr hmade
    · exact .inl he'

/-! ## Requests -/

theorem getOr_of_lookup {store : TypeStore} {key : TypeKey} {slot : Slot}
    (h : store.lookup key = some slot) (make : TypeStore → Shape × TypeStore) :
    store.getOr key make = (slot, store) := by
  simp [getOr, h]

theorem getOr_of_missing {store : TypeStore} {key : TypeKey} (h : store.lookup key = none)
    (make : TypeStore → Shape × TypeStore) :
    store.getOr key make = (make store).2.add { key, shape := (make store).1 } := by
  simp [getOr, h]

/-- What a request for a key comes to. A request makes what a name spells from
the inside out, and inner names have fewer marks; so no key of more marks than
the one that is asked for gets registered on the way. -/
structure Gets (store : TypeStore) (key : TypeKey) (answer : Slot × TypeStore) : Prop where
  grows : Grows store answer.2
  lookup : answer.2.lookup key = some answer.1
  fresh : ∀ other : TypeKey, store.lookup other = none →
    TypeName.marks key.name.toList < TypeName.marks other.name.toList →
    answer.2.lookup other = none

/-- What the making of a missing entity must come to, so that the request for
it does what a request should do. -/
structure Makes (store : TypeStore) (key : TypeKey) (made : Shape × TypeStore) : Prop where
  grows : Grows store made.2
  kind : made.1.kind.isMade = true
  refs : Indexed made.2 → ∀ r ∈ made.1.refs, r < made.2.slots.size
  fresh : ∀ other : TypeKey, store.lookup other = none →
    TypeName.marks key.name.toList ≤ TypeName.marks other.name.toList →
    made.2.lookup other = none

theorem makes_placeholder (store : TypeStore) (key : TypeKey) :
    Makes store key (.placeholder, store) :=
  ⟨grows_refl store, rfl, fun _ _ hr => (nomatch hr), fun _ h _ => h⟩

/-- A request for an inner name is a good way to make an outer one. -/
theorem makes_of_gets {store : TypeStore} {inner key : TypeKey} {answer : Slot × TypeStore}
    {shape : Shape} (h : Gets store inner answer) (hkind : shape.kind.isMade = true)
    (hrefs : shape.refs = [answer.1])
    (hlt : TypeName.marks inner.name.toList < TypeName.marks key.name.toList) :
    Makes store key (shape, answer.2) where
  grows := h.grows
  kind := hkind
  refs := by
    intro hi r hr
    rw [hrefs, List.mem_singleton] at hr
    obtain ⟨e, he, -⟩ := hi.registered h.lookup
    rw [hr]
    exact lt_of_entity? he
  fresh other hnone hle := h.fresh other hnone (Nat.lt_of_lt_of_le hlt hle)

theorem getOr_gets {store : TypeStore} {key : TypeKey} {make : TypeStore → Shape × TypeStore}
    (h : Makes store key (make store)) : Gets store key (store.getOr key make) := by
  cases hkey : store.lookup key with
  | some slot =>
    rw [getOr_of_lookup hkey]
    exact ⟨grows_refl store, hkey, fun _ hnone _ => hnone⟩
  | none =>
    have hmissing := h.fresh key hkey (Nat.le_refl _)
    rw [getOr_of_missing hkey]
    refine ⟨?_, ?_, ?_⟩
    · exact grows_trans h.grows (grows_add hmissing h.kind h.refs)
    · rw [lookup_add, if_pos rfl, fst_add]
    · intro other hnone hlt
      rw [lookup_add, if_neg]
      · exact h.fresh other hnone (Nat.le_of_lt hlt)
      · intro he
        simp only at he
        rw [he] at hlt
        exact Nat.lt_irrefl _ hlt

theorem getName_gets (scope : String) (name : List Char) (store : TypeStore) :
    Gets store { scope, name := .ofList name } (getName scope (.ofChars name) store) := by
  induction name using TypeName.ofChars.induct generalizing store with
  | case1 =>
    rw [TypeName.ofChars, if_pos rfl, getName]
    apply getOr_gets
    apply makes_of_gets (getOr_gets (makes_placeholder store stringKey)) rfl rfl
    -- The name of text has no mark, and that of a pointer to it has one.
    simp only [String.toList_ofList]
    decide
  | case2 name hne rest hp ih =>
    have hname : TypeName.ofChars name = .pointer (.ofList name) (.ofChars rest) := by
      rw [TypeName.ofChars, if_neg hne]
      split <;> simp_all
    rw [hname, getName]
    apply getOr_gets
    apply makes_of_gets (ih store) rfl rfl
    simpa using TypeName.marks_pointee hp
  | case3 name hne hp rest count he ih =>
    have hname : TypeName.ofChars name = .array (.ofList name) (.ofChars rest) count := by
      rw [TypeName.ofChars, if_neg hne]
      split
      · simp_all
      · split <;> simp_all
    rw [hname, getName]
    apply getOr_gets
    apply makes_of_gets (ih store) rfl rfl
    simpa using TypeName.marks_element he
  | case4 name hne hp he =>
    have hname : TypeName.ofChars name = .plain (.ofList name) := by
      rw [TypeName.ofChars, if_neg hne]
      split
      · simp_all
      · split <;> simp_all
    rw [hname, getName]
    exact getOr_gets (makes_placeholder store _)

theorem get_gets (store : TypeStore) (key : TypeKey) : Gets store key (store.get key) := by
  have h := getName_gets key.scope key.name.toList store
  rw [String.ofList_toList] at h
  exact h

/-- A request for a registered key changes nothing. -/
theorem get_of_lookup {store : TypeStore} {key : TypeKey} {slot : Slot}
    (h : store.lookup key = some slot) : store.get key = (slot, store) := by
  have hspell := TypeName.spelling_ofChars key.name.toList
  rw [String.ofList_toList] at hspell
  have hkey : store.lookup { scope := key.scope, name := key.name } = some slot := h
  unfold get
  cases hn : TypeName.ofChars key.name.toList with
  | charPointer =>
    rw [hn] at hspell
    rw [getName, hspell]
    exact getOr_of_lookup hkey _
  | pointer name pointee =>
    obtain rfl : name = key.name := by rw [hn] at hspell; exact hspell
    exact getOr_of_lookup hkey _
  | array name element count =>
    obtain rfl : name = key.name := by rw [hn] at hspell; exact hspell
    exact getOr_of_lookup hkey _
  | plain name =>
    obtain rfl : name = key.name := by rw [hn] at hspell; exact hspell
    rw [getName, getOrPlaceholder]
    exact getOr_of_lookup hkey _

/-- The slot that a request answers has the key that was asked for. -/
theorem keyAt?_get {store : TypeStore} (h : Indexed store) (key : TypeKey) :
    (store.get key).2.keyAt? (store.get key).1 = some key := by
  have hg := get_gets store key
  exact (hg.grows.indexed h).keyAt?_of_lookup hg.lookup

/-! ## Histories -/

/-- The stores that additions and requests build, from the empty store or from
the builtin types. The references of what is added are slots of the store. -/
inductive Built : TypeStore → Prop
  | empty (pointerSize : UInt32) : Built (empty pointerSize)
  | withBuiltins (pointerSize : UInt32) : Built (withBuiltins pointerSize)
  | add {store : TypeStore} {e : Entity} :
      Built store → (∀ r ∈ e.refs, r < store.slots.size) → Built (store.add e).2
  | get {store : TypeStore} (key : TypeKey) : Built store → Built (store.get key).2

theorem indexed_of_built {store : TypeStore} (h : Built store) : Indexed store := by
  induction h with
  | empty pointerSize => exact indexed_empty pointerSize
  | withBuiltins pointerSize => exact indexed_withBuiltins pointerSize
  | add _ _ ih => exact indexed_add ih _
  | get key _ ih => exact (get_gets _ key).grows.indexed ih

theorem closed_of_built {store : TypeStore} (h : Built store) : Closed store := by
  induction h with
  | empty pointerSize => exact closed_empty pointerSize
  | withBuiltins pointerSize => exact closed_withBuiltins pointerSize
  | add _ hrefs ih => exact closed_add ih hrefs
  | get key hb ih => exact (get_gets _ key).grows.closed (indexed_of_built hb) ih

end TypeStore

end BinaryAtlas
