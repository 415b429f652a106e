-- The laws of requests. The key of a pointer or of an array spells another
-- key, the one of the type inside. A request for a key registers the key and
-- all that it spells as far as they are missing; what it makes is told by the
-- keys alone, and it replaces nothing.
import BinaryAtlas.Proofs.Replacement

namespace BinaryAtlas

/-! ## Spelled keys -/

/-- The key of the type inside, if the key is spelled as a pointer or an array,
and the count of the array. -/
def TypeKey.inner? (key : TypeKey) : Option (TypeKey × Option UInt32) :=
  let name := key.name.toList
  if name = TypeName.charPointerName then some (TypeStore.stringKey, none)
  else
    match TypeName.pointee? name with
    | some rest => some (key.withName (.ofList rest), none)
    | none => (TypeName.element? name).map fun (rest, count) =>
      (key.withName (.ofList rest), some count)

/-- The pointer to a slot, or the array of so many. -/
def Shape.around : Option UInt32 → Slot → Shape
  | none, slot => pointer slot
  | some count, slot => array slot count

@[simp]
theorem Shape.refs_around (count : Option UInt32) (slot : Slot) :
    (around count slot).refs = [slot] := by
  cases count <;> rfl

@[simp]
theorem Shape.mapRefs_around (f : Slot → Slot) (count : Option UInt32) (slot : Slot) :
    (around count slot).mapRefs f = around count (f slot) := by
  cases count <;> rfl

/-- What a key spells, with the number of the key inside in the place of a reference. -/
def Shape.spelled (number : Option TypeKey → Slot) (key : TypeKey) : Shape :=
  match key.inner? with
  | none => placeholder
  | some (inner, count) => around count (number (some inner))

theorem Shape.layout?_spelled (number : Option TypeKey → Slot) (key : TypeKey) :
    (spelled number key).layout? = none := by
  unfold spelled
  split
  · rfl
  · rename_i count _
    cases count <;> rfl

namespace TypeKey

theorem marks_inner {key inner : TypeKey} {count : Option UInt32}
    (h : key.inner? = some (inner, count)) :
    TypeName.marks inner.name.toList < TypeName.marks key.name.toList := by
  unfold inner? at h
  simp only at h
  split at h
  · rename_i hname
    obtain ⟨rfl, -⟩ := Prod.mk.inj (Option.some.inj h)
    rw [hname]
    decide
  · split at h
    · rename_i hp
      obtain ⟨rfl, -⟩ := Prod.mk.inj (Option.some.inj h)
      simpa [withName] using TypeName.marks_pointee hp
    · obtain ⟨⟨rest, count⟩, he, h⟩ := Option.map_eq_some_iff.mp h
      obtain ⟨rfl, -⟩ := Prod.mk.inj h
      simpa [withName] using TypeName.marks_element he

/-- What holds of a key if it holds of the key inside holds of all keys. -/
theorem inner_induction {P : TypeKey → Prop} (plain : ∀ key, key.inner? = none → P key)
    (spelled : ∀ key inner count, key.inner? = some (inner, count) → P inner → P key)
    (key : TypeKey) : P key := by
  cases h : key.inner? with
  | none => exact plain key h
  | some found =>
    obtain ⟨inner, count⟩ := found
    exact spelled key inner count h (inner_induction plain spelled inner)
termination_by TypeName.marks key.name.toList
decreasing_by exact marks_inner h

/-- The first key is the second one, or spells it. -/
inductive Spells : TypeKey → TypeKey → Prop
  | refl (key : TypeKey) : Spells key key
  | inner {key inner other : TypeKey} {count : Option UInt32} :
      key.inner? = some (inner, count) → Spells inner other → Spells key other

theorem spells_plain {key : TypeKey} (h : key.inner? = none) (other : TypeKey) :
    Spells key other ↔ other = key := by
  constructor
  · intro hs
    cases hs with
    | refl => rfl
    | inner hinner _ =>
      rw [h] at hinner
      cases hinner
  · rintro rfl
    exact .refl _

theorem spells_spelled {key inner : TypeKey} {count : Option UInt32}
    (h : key.inner? = some (inner, count)) (other : TypeKey) :
    Spells key other ↔ other = key ∨ Spells inner other := by
  constructor
  · intro hs
    cases hs with
    | refl => exact .inl rfl
    | inner hinner hrest =>
      obtain ⟨rfl, -⟩ := Prod.mk.inj (Option.some.inj (h.symm.trans hinner))
      exact .inr hrest
  · rintro (rfl | hrest)
    · exact .refl _
    · exact .inner h hrest

end TypeKey

namespace TypeStore

/-! ## One layer of a request -/

/-- What a request makes for a missing key. -/
def make (key : TypeKey) (store : TypeStore) : Shape × TypeStore :=
  match key.inner? with
  | none => (.placeholder, store)
  | some (inner, count) => (.around count (store.get inner).1, (store.get inner).2)

theorem get_stringKey (store : TypeStore) :
    store.get stringKey = store.getOrPlaceholder stringKey := by
  have hname : TypeName.ofChars stringKey.name.toList = .plain stringKey.name := by decide +kernel
  rw [get, hname, getName]

/-- A request looks at one layer of the key after the other. -/
theorem get_eq (store : TypeStore) (key : TypeKey) :
    store.get key = store.getOr key (make key) := by
  obtain ⟨scope, name⟩ := key
  have hget (rest : List Char) (store : TypeStore) :
      getName scope (.ofChars rest) store = store.get { scope, name := .ofList rest } := by
    rw [get, String.toList_ofList]
  unfold get
  simp only
  rw [TypeName.ofChars]
  split
  · rename_i hname
    have hinner : TypeKey.inner? { scope, name } = some (stringKey, none) := by
      simp [TypeKey.inner?, hname]
    have hspell : TypeName.charPointer.spelling = name := by
      rw [TypeName.spelling, ← hname, String.ofList_toList]
    rw [getName, hspell]
    congr 1
    funext store
    simp only [make, hinner, get_stringKey]
    rfl
  · rename_i hname
    split
    · rename_i rest hp
      have hinner : TypeKey.inner? { scope, name } =
          some ({ scope, name := .ofList rest }, none) := by
        simp [TypeKey.inner?, hname, hp, TypeKey.withName]
      rw [getName, String.ofList_toList]
      congr 1
      funext store
      simp only [make, hinner, hget]
      rfl
    · rename_i hp
      split
      · rename_i rest count he
        have hinner : TypeKey.inner? { scope, name } =
            some ({ scope, name := .ofList rest }, some count) := by
          simp [TypeKey.inner?, hname, hp, he, TypeKey.withName]
        rw [getName, String.ofList_toList]
        congr 1
        funext store
        simp only [make, hinner, hget]
        rfl
      · rename_i he
        have hinner : TypeKey.inner? { scope, name } = none := by
          simp [TypeKey.inner?, hname, hp, he]
        rw [getName, String.ofList_toList, getOrPlaceholder]
        congr 1
        funext store
        simp only [make, hinner]

/-! ## Registered keys -/

theorem mem_keys_iff_byKey? {store : TypeStore} (h : Indexed store) {key : TypeKey} :
    key ∈ store.keys ↔ ∃ e, store.byKey? key = some e := by
  rw [mem_keys]
  constructor
  · rintro ⟨slot, hkey⟩
    obtain ⟨e, he, -⟩ := h.registered hkey
    exact ⟨e, byKey?_eq_some.mpr ⟨slot, hkey, he⟩⟩
  · rintro ⟨e, he⟩
    obtain ⟨slot, hkey, -⟩ := byKey?_eq_some.mp he
    exact ⟨slot, hkey⟩

theorem not_mem_keys {store : TypeStore} {key : TypeKey} :
    key ∉ store.keys ↔ store.lookup key = none := by
  rw [mem_keys, Option.eq_none_iff_forall_ne_some, not_exists]

theorem mem_keys_add {store : TypeStore} {e : Entity} {key : TypeKey} :
    key ∈ (store.add e).2.keys ↔ key ∈ store.keys ∨ key = e.key := by
  rw [mem_keys, mem_keys, lookup_add]
  by_cases h : e.key = key
  · simp [h]
  · simp [h, Ne.symm h]

theorem Extends.mem_keys {store store' : TypeStore} (h : Extends store store') {key : TypeKey}
    (hkey : key ∈ store.keys) : key ∈ store'.keys := by
  obtain ⟨slot, hslot⟩ := TypeStore.mem_keys.mp hkey
  exact TypeStore.mem_keys.mpr ⟨slot, h.index hslot⟩

/-- With each key, the key inside of it is registered. -/
def InnerKnown (store : TypeStore) : Prop :=
  ∀ key inner count, key.inner? = some (inner, count) → key ∈ store.keys → inner ∈ store.keys

theorem InnerKnown.spells {store : TypeStore} (h : InnerKnown store) {key other : TypeKey}
    (hs : key.Spells other) (hkey : key ∈ store.keys) : other ∈ store.keys := by
  induction hs with
  | refl => exact hkey
  | inner hinner _ ih => exact ih (h _ _ _ hinner hkey)

theorem innerKnown_add {store : TypeStore} (h : InnerKnown store) {e : Entity}
    (he : ∀ inner count, e.key.inner? = some (inner, count) → inner ∈ store.keys) :
    InnerKnown (store.add e).2 := by
  intro key inner count hinner hkey
  rw [mem_keys_add] at hkey ⊢
  rcases hkey with hkey | rfl
  · exact .inl (h key inner count hinner hkey)
  · exact .inl (he inner count hinner)

/-! ## Types as they are spelled -/

/-- The shape is the one that the key spells: around a type of the key inside,
or a placeholder if there is none. -/
def SpelledAs (store : TypeStore) (key : TypeKey) (shape : Shape) : Prop :=
  match key.inner? with
  | none => shape = .placeholder
  | some (inner, count) => ∃ slot, shape = .around count slot ∧ store.keyAt? slot = some inner

theorem SpelledAs.keeps {store store' : TypeStore} {key : TypeKey} {shape : Shape}
    (h : SpelledAs store key shape)
    (hkeys : ∀ slot key, store.keyAt? slot = some key → store'.keyAt? slot = some key) :
    SpelledAs store' key shape := by
  unfold SpelledAs at h ⊢
  split
  · rename_i hinner
    rw [hinner] at h
    exact h
  · rename_i hinner
    rw [hinner] at h
    obtain ⟨slot, hshape, hslot⟩ := h
    exact ⟨slot, hshape, hkeys _ _ hslot⟩

theorem SpelledAs.isMade {store : TypeStore} {key : TypeKey} {shape : Shape}
    (h : SpelledAs store key shape) : shape.kind.isMade = true := by
  unfold SpelledAs at h
  split at h
  · rw [h]
    rfl
  · rename_i count _
    obtain ⟨slot, rfl, -⟩ := h
    cases count <;> rfl

theorem SpelledAs.refs {store : TypeStore} {key : TypeKey} {shape : Shape}
    (h : SpelledAs store key shape) :
    ∀ r ∈ shape.refs, ∃ inner count, key.inner? = some (inner, count) ∧
      store.keyAt? r = some inner := by
  intro r hr
  unfold SpelledAs at h
  split at h
  · rw [h] at hr
    cases hr
  · rename_i inner count hinner
    obtain ⟨slot, rfl, hslot⟩ := h
    rw [Shape.refs_around, List.mem_singleton] at hr
    rw [hr]
    exact ⟨inner, count, hinner, hslot⟩

theorem SpelledAs.layout? {store : TypeStore} {key : TypeKey} {shape : Shape}
    (h : SpelledAs store key shape) : shape.layout? = none := by
  unfold SpelledAs at h
  split at h
  · rw [h]
    rfl
  · rename_i count _
    obtain ⟨slot, rfl, -⟩ := h
    cases count <;> rfl

theorem SpelledAs.numbered {store : TypeStore} {key : TypeKey} {shape : Shape}
    (h : SpelledAs store key shape) (number : Option TypeKey → Slot) :
    shape.mapRefs (fun r => number (store.keyAt? r)) = .spelled number key := by
  unfold SpelledAs at h
  unfold Shape.spelled
  split at h
  · rw [h]
    rfl
  · obtain ⟨slot, rfl, hslot⟩ := h
    rw [Shape.mapRefs_around, hslot]

theorem SpelledAs.same {store store' : TypeStore} {key : TypeKey} {shape shape' : Shape}
    (h : SpelledAs store key shape) (h' : SpelledAs store' key shape')
    (number : Option TypeKey → Slot) :
    shape'.mapRefs (fun r => number (store'.keyAt? r)) =
      shape.mapRefs fun r => number (store.keyAt? r) := by
  rw [h.numbered, h'.numbered]

/-! ## What requests come to -/

/-- The second store comes from the first one by requests that register the
asked keys, where they are missing, as they are spelled. -/
structure Requested (asked : TypeKey → Prop) (store store' : TypeStore) : Prop where
  grows : Grows store store'
  keys : ∀ key, key ∈ store'.keys ↔ key ∈ store.keys ∨ asked key
  made : ∀ key e, store'.byKey? key = some e → key ∉ store.keys → SpelledAs store' key e.shape
  noneReplaced : NoneReplaced store → NoneReplaced store'
  innerKnown : InnerKnown store → InnerKnown store'

section

variable {store store' last : TypeStore} {asked asked' : TypeKey → Prop}

theorem requested_nothing (h : Indexed store) : Requested (fun _ => False) store store where
  grows := grows_refl store
  keys := by simp
  made := by
    intro key e he hnew
    exact absurd ((mem_keys_iff_byKey? h).mpr ⟨e, he⟩) hnew
  noneReplaced := id
  innerKnown := id

theorem Requested.congr (h : Requested asked store store')
    (hasked : ∀ key, key ∈ store.keys ∨ asked' key ↔ key ∈ store.keys ∨ asked key) :
    Requested asked' store store' :=
  { h with keys := fun key => (h.keys key).trans (hasked key).symm }

theorem Requested.trans (hi : Indexed store) (h : Requested asked store store')
    (h' : Requested asked' store' last) :
    Requested (fun key => asked key ∨ asked' key) store last where
  grows := grows_trans h.grows h'.grows
  keys := by
    intro key
    rw [h'.keys, h.keys, or_assoc]
  made := by
    intro key e he hnew
    by_cases hkey : key ∈ store'.keys
    · obtain ⟨e', he'⟩ := (mem_keys_iff_byKey? (h.grows.indexed hi)).mp hkey
      obtain rfl := Option.some.inj (he.symm.trans (h'.grows.extends_.byKey? he'))
      exact (h.made key e he' hnew).keeps fun _ _ => h'.grows.extends_.keyAt?
    · exact h'.made key e he hkey
  noneReplaced hr := h'.noneReplaced (h.noneReplaced hr)
  innerKnown hk := h'.innerKnown (h.innerKnown hk)

/-- One more key, which is missing, gets what it spells. -/
theorem Requested.add (hi : Indexed store) (h : Requested asked store store') {key : TypeKey}
    {shape : Shape} (hnew : store'.lookup key = none) (hshape : SpelledAs store' key shape) :
    Requested (fun other => asked other ∨ other = key) store (store'.add { key, shape }).2 := by
  have hi' := h.grows.indexed hi
  have hgrows : Grows store' (store'.add { key, shape }).2 := by
    have hmade : (Entity.kind { key, shape }).isMade = true := hshape.isMade
    apply grows_add hnew hmade
    intro _ r hr
    obtain ⟨inner, -, -, hslot⟩ := hshape.refs r hr
    exact lt_of_keyAt? hslot
  refine h.trans hi ⟨hgrows, fun other => mem_keys_add, ?_, ?_, ?_⟩
  · intro other e he hother
    rw [byKey?_add hi'] at he
    split at he
    · rename_i hkey
      obtain rfl := Option.some.inj he
      obtain rfl : key = other := hkey
      exact hshape.keeps fun _ _ => keyAt?_add
    · exact absurd ((mem_keys_iff_byKey? hi').mpr ⟨e, he⟩) hother
  · exact fun hr => noneReplaced_add_new hr hnew
  · intro hk
    apply innerKnown_add hk
    intro inner count hinner
    unfold SpelledAs at hshape
    rw [hinner] at hshape
    obtain ⟨slot, -, hslot⟩ := hshape
    obtain ⟨e, he, rfl⟩ := Option.map_eq_some_iff.mp hslot
    exact mem_keys.mpr (hi'.known he)

end

/-- What is registered already need not be made. -/
theorem requested_registered {store : TypeStore} (hi : Indexed store) (hk : InnerKnown store)
    {key : TypeKey} (hkey : key ∈ store.keys) : Requested key.Spells store store := by
  apply (requested_nothing hi).congr
  intro other
  constructor
  · rintro (h | h)
    · exact .inl h
    · exact .inl (hk.spells h hkey)
  · rintro (h | h)
    · exact .inl h
    · cases h

/-- A request registers the key and all keys that it spells. -/
theorem get_requested {store : TypeStore} (hi : Indexed store) (hk : InnerKnown store)
    (key : TypeKey) : Requested key.Spells store (store.get key).2 := by
  induction key using TypeKey.inner_induction with
  | plain key hplain =>
    cases hkey : store.lookup key with
    | some slot =>
      rw [get_of_lookup hkey]
      exact requested_registered hi hk (mem_keys.mpr ⟨slot, hkey⟩)
    | none =>
      have hshape : SpelledAs store key .placeholder := by
        unfold SpelledAs
        rw [hplain]
      rw [get_eq, getOr_of_missing hkey, make, hplain]
      apply ((requested_nothing hi).add hi hkey hshape).congr
      intro other
      rw [TypeKey.spells_plain hplain, false_or]
  | spelled key inner count hinner ih =>
    cases hkey : store.lookup key with
    | some slot =>
      rw [get_of_lookup hkey]
      exact requested_registered hi hk (mem_keys.mpr ⟨slot, hkey⟩)
    | none =>
      have hfresh := (get_gets store inner).fresh key hkey (TypeKey.marks_inner hinner)
      have hshape : SpelledAs (store.get inner).2 key (.around count (store.get inner).1) := by
        unfold SpelledAs
        rw [hinner]
        exact ⟨_, rfl, keyAt?_get hi inner⟩
      rw [get_eq, getOr_of_missing hkey, make, hinner]
      apply (ih.add hi hfresh hshape).congr
      intro other
      rw [TypeKey.spells_spelled hinner, @or_comm (other = key)]

/-! ## Many requests -/

/-- The store after requests for keys, one after the other. -/
def askAll (store : TypeStore) (keys : List TypeKey) : TypeStore :=
  keys.foldl (fun store key => (store.get key).2) store

theorem askAll_append (store : TypeStore) (keys others : List TypeKey) :
    store.askAll (keys ++ others) = (store.askAll keys).askAll others := List.foldl_append

theorem askAll_grows (store : TypeStore) (keys : List TypeKey) :
    Grows store (store.askAll keys) := by
  induction keys generalizing store with
  | nil => exact grows_refl store
  | cons key keys ih => exact grows_trans (get_gets store key).grows (ih _)

theorem askAll_requested {store : TypeStore} (hi : Indexed store) (hk : InnerKnown store)
    (keys : List TypeKey) :
    Requested (fun other => ∃ key ∈ keys, key.Spells other) store (store.askAll keys) := by
  induction keys generalizing store with
  | nil =>
    apply (requested_nothing hi).congr
    simp
  | cons key keys ih =>
    have hfirst := get_requested hi hk key
    have hrest := ih (hfirst.grows.indexed hi) (hfirst.innerKnown hk)
    apply (hfirst.trans hi hrest).congr
    simp

end TypeStore

end BinaryAtlas
