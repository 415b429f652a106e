-- The laws of types that requests make. After any requests, what a key stands
-- for is told by the name alone: a builtin type, or a pointer to or an array of
-- what a smaller name stands for, or a placeholder. What was asked for before
-- makes no difference to it.
import BinaryAtlas.Proofs.Standing
import Mathlib.Data.List.Nodup

namespace BinaryAtlas

/-! ## Names taken apart -/

theorem Text.splitFirst_append {mark : Char} {before : List Char} (h : mark ∉ before)
    (after : List Char) : splitFirst mark (before ++ mark :: after) = some (before, after) := by
  induction before with
  | nil => exact if_pos rfl
  | cons c before ih =>
    rw [List.mem_cons, not_or] at h
    rw [List.cons_append, splitFirst, if_neg (Ne.symm h.1), ih h.2, Option.map_some]

theorem Text.not_mem_of_splitFirst {mark : Char} {cs before after : List Char}
    (h : splitFirst mark cs = some (before, after)) : mark ∉ before := by
  induction cs generalizing before after with
  | nil => cases h
  | cons c cs ih =>
    rw [splitFirst] at h
    split at h
    · obtain ⟨rfl, -⟩ := Prod.mk.inj (Option.some.inj h)
      exact List.not_mem_nil
    · rename_i hc
      obtain ⟨⟨rest, after⟩, hrest, h⟩ := Option.map_eq_some_iff.mp h
      obtain ⟨rfl, -⟩ := Prod.mk.inj h
      exact List.not_mem_cons_of_ne_of_not_mem (Ne.symm hc) (ih hrest)

/-- The cut is at the first `mark`. -/
theorem Text.splitFirst_eq_some_iff {mark : Char} {cs before after : List Char} :
    splitFirst mark cs = some (before, after) ↔ cs = before ++ mark :: after ∧ mark ∉ before := by
  constructor
  · exact fun h => ⟨splitFirst_eq_some h, not_mem_of_splitFirst h⟩
  · rintro ⟨rfl, hbefore⟩
    exact splitFirst_append hbefore after

theorem TypeName.pointee?_eq_some {name rest : List Char} :
    pointee? name = some rest ↔ ∃ front, name = front ++ ['*'] ∧ Text.trim front = rest := by
  rw [pointee?, Option.ite_none_right_eq_some, Option.some.injEq, List.getLast?_eq_some_iff]
  constructor
  · rintro ⟨⟨front, rfl⟩, hrest⟩
    rw [List.dropLast_concat] at hrest
    exact ⟨front, rfl, hrest⟩
  · rintro ⟨front, rfl, hrest⟩
    rw [List.dropLast_concat]
    exact ⟨⟨front, rfl⟩, hrest⟩

theorem TypeName.pointee?_eq_none {name : List Char} :
    pointee? name = none ↔ ∀ front, name ≠ front ++ ['*'] := by
  simp [pointee?, List.getLast?_eq_some_iff]

theorem TypeName.element?_eq_some {name rest : List Char} {count : UInt32} :
    element? name = some (rest, count) ↔ ∃ before digits after,
      name = before ++ '[' :: (digits ++ ']' :: after) ∧ '[' ∉ before ∧ ']' ∉ digits ∧
      Text.word? 10 (Text.trim digits) = some count ∧ Text.trim (before ++ after) = rest := by
  simp only [element?, Option.bind_eq_bind, Option.bind_eq_some_iff, Option.some.injEq,
    Prod.mk.injEq, Prod.exists, Text.splitFirst_eq_some_iff]
  constructor
  · rintro ⟨before, -, ⟨rfl, hbefore⟩, digits, after, ⟨rfl, hdigits⟩, _, hcount, hrest, rfl⟩
    exact ⟨before, digits, after, rfl, hbefore, hdigits, hcount, hrest⟩
  · rintro ⟨before, digits, after, rfl, hbefore, hdigits, hcount, hrest⟩
    exact ⟨before, _, ⟨rfl, hbefore⟩, digits, after, ⟨rfl, hdigits⟩, count, hcount, hrest, rfl⟩

/-! ## What names say -/

namespace TypeKey

/-- The name says that the type is a pointer to the one of another key, or an
array of so many of it. -/
inductive Around (key : TypeKey) : TypeKey → Option UInt32 → Prop
  /-- A pointer to text, in every scope. -/
  | text : key.name = "char *" → Around key (.root "string") none
  | pointer {front : List Char} : key.name ≠ "char *" → key.name.toList = front ++ ['*'] →
      Around key (key.withName (.ofList (Text.trim front))) none
  /-- A number between the first `[` and the first `]` after it. -/
  | array {before digits after : List Char} {count : UInt32} :
      (∀ front, key.name.toList ≠ front ++ ['*']) →
      key.name.toList = before ++ '[' :: (digits ++ ']' :: after) → '[' ∉ before → ']' ∉ digits →
      Text.word? 10 (Text.trim digits) = some count →
      Around key (key.withName (.ofList (Text.trim (before ++ after)))) (some count)

theorem toList_name_eq {key : TypeKey} :
    key.name.toList = TypeName.charPointerName ↔ key.name = "char *" := by
  have hname : TypeName.charPointerName = "char *".toList := by decide +kernel
  rw [hname, String.toList_inj]

theorem inner?_eq_some {key inner : TypeKey} {count : Option UInt32} :
    key.inner? = some (inner, count) ↔ key.Around inner count := by
  constructor
  · intro h
    unfold inner? at h
    simp only at h
    split at h
    · rename_i hname
      obtain ⟨rfl, rfl⟩ := Prod.mk.inj (Option.some.inj h)
      exact .text (toList_name_eq.mp hname)
    · rename_i hname
      split at h
      · rename_i rest hp
        obtain ⟨rfl, rfl⟩ := Prod.mk.inj (Option.some.inj h)
        obtain ⟨front, hfront, rfl⟩ := TypeName.pointee?_eq_some.mp hp
        exact .pointer (mt toList_name_eq.mpr hname) hfront
      · rename_i hp
        obtain ⟨⟨rest, n⟩, he, h⟩ := Option.map_eq_some_iff.mp h
        obtain ⟨rfl, rfl⟩ := Prod.mk.inj h
        obtain ⟨before, digits, after, hcut, hbefore, hdigits, hcount, rfl⟩ :=
          TypeName.element?_eq_some.mp he
        exact .array (TypeName.pointee?_eq_none.mp hp) hcut hbefore hdigits hcount
  · intro h
    unfold inner?
    cases h with
    | text hname => exact if_pos (toList_name_eq.mpr hname)
    | pointer hname hfront =>
      simp only [mt toList_name_eq.mp hname, if_false,
        TypeName.pointee?_eq_some.mpr ⟨_, hfront, rfl⟩]
    | array hstar hcut hbefore hdigits hcount =>
      have hname : key.name.toList ≠ TypeName.charPointerName :=
        hstar ['c', 'h', 'a', 'r', ' ']
      simp only [hname, if_false, TypeName.pointee?_eq_none.mpr hstar,
        TypeName.element?_eq_some.mpr ⟨_, _, _, hcut, hbefore, hdigits, hcount, rfl⟩,
        Option.map_some]

-- Only the first brackets count, and what stands around them is put together.
example : inner? ⟨"ns", "a[ +2 ]b[3]"⟩ = some (⟨"ns", "ab[3]"⟩, some 2) := by decide +kernel

theorem inner?_eq_none {key : TypeKey} :
    key.inner? = none ↔ ∀ inner count, ¬ key.Around inner count := by
  simp only [Option.eq_none_iff_forall_ne_some, Prod.forall, ne_eq, inner?_eq_some]

end TypeKey

namespace TypeStore

open Declaration (builtinKeys)

/-- What the entity of a key is, in the store and at the slot that it has there:
the builtin type of the key, or else a pointer or an array as the name says, with
the slot of the smaller key, which is an earlier one; or else a placeholder. -/
inductive Denotes (pointerSize : UInt32) (store : TypeStore) (key : TypeKey) (slot : Slot) :
    Shape → Prop
  | builtin {e : Entity} : e ∈ Builtin.entities pointerSize → e.key = key →
      Denotes pointerSize store key slot e.shape
  | around {inner : TypeKey} {count : Option UInt32} {target : Slot} :
      key ∉ builtinKeys → key.Around inner count → store.lookup inner = some target →
      target < slot → Denotes pointerSize store key slot (.around count target)
  | placeholder : key ∉ builtinKeys → (∀ inner count, ¬ key.Around inner count) →
      Denotes pointerSize store key slot .placeholder

/-! ## Layers -/

/-- Every slot is the one that its key stands for, and its references are
earlier slots. -/
structure Layered (store : TypeStore) : Prop where
  current : ∀ {slot e}, store.entity? slot = some e → store.lookup e.key = some slot
  earlier : ∀ {slot e}, store.entity? slot = some e → ∀ r ∈ e.refs, r < slot

/-- A new key comes on top of what is there. -/
theorem layered_add {store : TypeStore} (h : Layered store) {e : Entity}
    (hnew : store.lookup e.key = none) (hrefs : ∀ r ∈ e.refs, r < store.slots.size) :
    Layered (store.add e).2 where
  current := by
    intro slot e' he'
    rw [entity?_add] at he'
    split at he'
    · rename_i hslot
      obtain rfl := Option.some.inj he'
      rw [lookup_add, if_pos rfl, hslot]
    · exact (extends_add hnew).index (h.current he')
  earlier := by
    intro slot e' he'
    rw [entity?_add] at he'
    split at he'
    · rename_i hslot
      obtain rfl := Option.some.inj he'
      rw [hslot]
      exact hrefs
    · exact h.earlier he'

theorem layered_withBuiltins (pointerSize : UInt32) : Layered (withBuiltins pointerSize) := by
  apply withBuiltins_induction
  · constructor <;> simp [empty, entity?]
  · intro store e h he hnew
    apply layered_add h hnew
    rw [refs_of_mem_entities he]
    intro r hr
    cases hr

theorem layered_get {store : TypeStore} (hi : Indexed store) (h : Layered store) (key : TypeKey) :
    Layered (store.get key).2 := by
  induction key using TypeKey.inner_induction with
  | plain key hplain =>
    cases hkey : store.lookup key with
    | some slot => rwa [get_of_lookup hkey]
    | none =>
      rw [get_eq, getOr_of_missing hkey, make, hplain]
      apply layered_add h hkey
      intro r hr
      cases hr
  | spelled key inner count hinner ih =>
    cases hkey : store.lookup key with
    | some slot => rwa [get_of_lookup hkey]
    | none =>
      have hgets := get_gets store inner
      have hnew := hgets.fresh key hkey (TypeKey.marks_inner hinner)
      rw [get_eq, getOr_of_missing hkey, make, hinner]
      apply layered_add ih hnew
      intro r hr
      rw [Entity.refs, Shape.refs_around, List.mem_singleton] at hr
      rw [hr]
      exact lt_of_keyAt? (keyAt?_get hi inner)

theorem layered_askAll {store : TypeStore} (hi : Indexed store) (h : Layered store)
    (keys : List TypeKey) : Layered (store.askAll keys) := by
  induction keys generalizing store with
  | nil => exact h
  | cons key keys ih => exact ih ((get_gets store key).grows.indexed hi) (layered_get hi h key)

/-! ## What stands after requests -/

theorem eq_of_mem_entities {pointerSize : UInt32} {e e' : Entity}
    (h : e ∈ Builtin.entities pointerSize) (h' : e' ∈ Builtin.entities pointerSize)
    (hkey : e.key = e'.key) : e = e' :=
  List.inj_on_of_nodup_map (nodup_keys_entities pointerSize) h h' hkey

theorem key_mem_builtinKeys {pointerSize : UInt32} {e : Entity}
    (h : e ∈ Builtin.entities pointerSize) : e.key ∈ builtinKeys :=
  Declaration.map_key_entities pointerSize ▸ List.mem_map_of_mem h

/-- The builtin types are text and the primitives. -/
theorem shape_of_mem_entities {pointerSize : UInt32} {e : Entity}
    (h : e ∈ Builtin.entities pointerSize) :
    e.key = stringKey ∧ e.shape = .string ∨
      e.key ∈ Builtin.primitiveKeys ∧ ∃ size, e.shape = .primitive size := by
  rw [Builtin.entities, List.mem_append, List.mem_cons, List.mem_map, List.mem_map] at h
  rcases h with (rfl | ⟨⟨name, size⟩, hrow, rfl⟩) | ⟨name, hrow, rfl⟩
  · exact .inl ⟨rfl, rfl⟩
  · refine .inr ⟨List.mem_map_of_mem (List.mem_append_left _ ?_), size, rfl⟩
    exact List.mem_map_of_mem (f := Prod.fst) hrow
  · exact .inr ⟨List.mem_map_of_mem (List.mem_append_right _ hrow), pointerSize, rfl⟩

theorem spelledAs_plain {store : TypeStore} {key : TypeKey} {shape : Shape}
    (h : ∀ inner count, ¬ key.Around inner count) :
    SpelledAs store key shape ↔ shape = .placeholder := by
  rw [SpelledAs, TypeKey.inner?_eq_none.mpr h]

theorem spelledAs_around {store : TypeStore} {key inner : TypeKey} {count : Option UInt32}
    {shape : Shape} (h : key.Around inner count) :
    SpelledAs store key shape ↔
      ∃ slot, shape = .around count slot ∧ store.keyAt? slot = some inner := by
  rw [SpelledAs, TypeKey.inner?_eq_some.mpr h]

theorem Layered.lookup_of_keyAt? {store : TypeStore} (h : Layered store) {slot : Slot}
    {key : TypeKey} (hkey : store.keyAt? slot = some key) : store.lookup key = some slot := by
  obtain ⟨e, he, rfl⟩ := Option.map_eq_some_iff.mp hkey
  exact h.current he

/-- Of the entity of a key, no more and no less is true than its name says. -/
theorem Layered.denotes_iff {store : TypeStore} (h : Layered store) {pointerSize : UInt32}
    {slot : Slot} {e : Entity} (he : store.entity? slot = some e)
    (hsaid : e ∈ Builtin.entities pointerSize ∨
      e.key ∉ builtinKeys ∧ SpelledAs store e.key e.shape) (shape : Shape) :
    Denotes pointerSize store e.key slot shape ↔ e.shape = shape := by
  constructor
  · intro hshape
    cases hshape with
    | builtin hmem hkey =>
      rcases hsaid with hmem' | ⟨hnot, -⟩
      · rw [eq_of_mem_entities hmem hmem' hkey]
      · rw [← hkey] at hnot
        exact absurd (key_mem_builtinKeys hmem) hnot
    | around hnot haround hinner hlt =>
      rcases hsaid with hmem | ⟨-, hspelled⟩
      · exact absurd (key_mem_builtinKeys hmem) hnot
      · obtain ⟨target, heq, htarget⟩ := (spelledAs_around haround).mp hspelled
        rw [h.lookup_of_keyAt? htarget] at hinner
        rw [heq, Option.some.inj hinner]
    | placeholder hnot hplain =>
      rcases hsaid with hmem | ⟨-, hspelled⟩
      · exact absurd (key_mem_builtinKeys hmem) hnot
      · exact (spelledAs_plain hplain).mp hspelled
  · rintro rfl
    rcases hsaid with hmem | ⟨hnot, hspelled⟩
    · exact .builtin hmem rfl
    · cases hinner : e.key.inner? with
      | none =>
        have hplain := TypeKey.inner?_eq_none.mp hinner
        rw [(spelledAs_plain hplain).mp hspelled]
        exact .placeholder hnot hplain
      | some found =>
        have haround := TypeKey.inner?_eq_some.mp hinner
        obtain ⟨target, heq, htarget⟩ := (spelledAs_around haround).mp hspelled
        have hlt : target < slot := by
          apply h.earlier he
          rw [Entity.refs, heq, Shape.refs_around]
          exact List.mem_singleton_self _
        rw [heq]
        exact .around hnot haround (h.lookup_of_keyAt? htarget) hlt

/-- After any requests, a request for a key leaves all that there is as it was,
and asking again changes nothing. The type that it answers has the very key, and
is what the name of the key denotes and nothing else. -/
theorem requests_make_what_names_denote (pointerSize : UInt32) (asked : List TypeKey)
    (key : TypeKey) :
    let store := (withBuiltins pointerSize).askAll asked
    let answer := store.get key
    Extends store answer.2 ∧ answer.2.get key = answer ∧
    ∃ e, answer.2.entity? answer.1 = some e ∧ e.key = key ∧
      ∀ shape, Denotes pointerSize answer.2 key answer.1 shape ↔ e.shape = shape := by
  intro store answer
  have hgets := get_gets store key
  have hstands := (Declaration.standing_withBuiltins pointerSize).asks (asked ++ [key])
  have hlayered : Layered ((withBuiltins pointerSize).askAll (asked ++ [key])) :=
    layered_askAll (indexed_withBuiltins pointerSize) (layered_withBuiltins pointerSize) _
  have hlast : (withBuiltins pointerSize).askAll (asked ++ [key]) = answer.2 :=
    List.foldl_append
  rw [hlast] at hstands hlayered
  refine ⟨hgets.grows.extends_, get_of_lookup hgets.lookup, ?_⟩
  obtain ⟨e, he, rfl⟩ := hstands.sound.indexed.registered hgets.lookup
  refine ⟨e, he, rfl, hlayered.denotes_iff he ?_⟩
  have hby : answer.2.byKey? e.key = some e := byKey?_eq_some.mpr ⟨_, hgets.lookup, he⟩
  exact (hstands.undeclared e.key e hby rfl).imp_left Declaration.mem_entities_of_byKey?

end TypeStore

end BinaryAtlas
