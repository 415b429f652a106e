-- The laws of the types that a comment asks for. Each key that is new in the
-- store after a comment is the key of a type that a directive names, or is
-- spelled by that key. Most such directives are found; but some are arguments of
-- a directive that is dropped, and what these have asked for stays in the store.
import BinaryAtlas.Program.Comments
import BinaryAtlas.Proofs.CommentStretches
import BinaryAtlas.Proofs.Requests

namespace BinaryAtlas

namespace TypeStore

/-! ## Keys behind a slot -/

/-- The key is the one of the slot, or is reached from it through pointers and
arrays. -/
inductive Reaches (store : TypeStore) : Slot → TypeKey → Prop
  | self {slot : Slot} {e : Entity} (h : store.entity? slot = some e) : Reaches store slot e.key
  | inner {slot next : Slot} {e : Entity} {count : Option UInt32} {key : TypeKey}
      (h : store.entity? slot = some e) (hshape : e.shape = .around count next)
      (hnext : Reaches store next key) : Reaches store slot key

section

variable {store store' : TypeStore}

theorem Reaches.extends_ {slot : Slot} {key : TypeKey} (h : store.Reaches slot key)
    (hextends : Extends store store') : store'.Reaches slot key := by
  induction h with
  | self he => exact .self (hextends.slots he)
  | inner he hshape _ ih => exact .inner (hextends.slots he) hshape ih

/-- What a request adds is reached from its answer. -/
theorem reaches_of_get (store : TypeStore) {asked key : TypeKey} (hold : key ∉ store.keys)
    (hnew : key ∈ (store.get asked).2.keys) :
    (store.get asked).2.Reaches (store.get asked).1 key := by
  induction asked using TypeKey.inner_induction with
  | plain asked hplain =>
    cases hasked : store.lookup asked with
    | some slot =>
      rw [get_of_lookup hasked] at hnew
      exact absurd hnew hold
    | none =>
      rw [get_eq, getOr_of_missing hasked, make, hplain] at hnew ⊢
      obtain hkey | rfl := mem_keys_add.mp hnew
      · exact absurd hkey hold
      · exact .self (e := ⟨_, _⟩) (by rw [entity?_add, fst_add, if_pos rfl])
  | spelled asked inner count hinner ih =>
    cases hasked : store.lookup asked with
    | some slot =>
      rw [get_of_lookup hasked] at hnew
      exact absurd hnew hold
    | none =>
      -- The request for the inner key leaves the outer one missing, so its addition hides nothing.
      have hfresh := (get_gets store inner).fresh asked hasked (TypeKey.marks_inner hinner)
      rw [get_eq, getOr_of_missing hasked, make, hinner] at hnew ⊢
      have hslot := (store.get inner).2.entity?_add
        { key := asked, shape := .around count (store.get inner).1 }
        (store.get inner).2.slots.size
      rw [if_pos rfl] at hslot
      obtain hkey | rfl := mem_keys_add.mp hnew
      · exact .inner hslot rfl ((ih hkey).extends_ (extends_add hfresh))
      · exact .self hslot

/-- What requests add is reached from the slot of a key that was asked for. -/
theorem reaches_of_askAll (store : TypeStore) {asked : List TypeKey} {key : TypeKey}
    (hold : key ∉ store.keys) (hnew : key ∈ (store.askAll asked).keys) :
    ∃ first ∈ asked, ∃ slot, (store.askAll asked).lookup first = some slot ∧
      (store.askAll asked).Reaches slot key := by
  induction asked generalizing store with
  | nil => exact absurd hnew hold
  | cons first others ih =>
    by_cases hfirst : key ∈ (store.get first).2.keys
    · have hgrows := askAll_grows (store.get first).2 others
      refine ⟨first, List.mem_cons_self, (store.get first).1, ?_, ?_⟩
      · exact hgrows.extends_.index (get_gets store first).lookup
      · exact (reaches_of_get store hold hfirst).extends_ hgrows.extends_
    · obtain ⟨asked, hasked, hreaches⟩ := ih _ hfirst hnew
      exact ⟨asked, List.mem_cons_of_mem first hasked, hreaches⟩

end

/-! ## Stretches of a comment -/

/-- The key is reached from the type that one of the directives refers to. -/
def FromFound (store : TypeStore) (found : List (Directive Slot)) (key : TypeKey) : Prop :=
  ∃ d ∈ found, ∃ slot, d.target? = some slot ∧ store.Reaches slot key

/-- The key is reached from the type that one of the directives names, which were
read but are not found. -/
def FromLost (store : TypeStore) (lost : List ProperDirective) (key : TypeKey) : Prop :=
  ∃ d ∈ lost, ∃ asked slot, d.meaning.target? = some asked ∧ store.lookup asked = some slot ∧
    store.Reaches slot key

section

variable {store store' : TypeStore} {key : TypeKey}

theorem FromFound.extends_ {found found' : List (Directive Slot)} (h : FromFound store found key)
    (hextends : Extends store store') (hfound : found ⊆ found') : FromFound store' found' key := by
  obtain ⟨d, hd, slot, htarget, hreaches⟩ := h
  exact ⟨d, hfound hd, slot, htarget, hreaches.extends_ hextends⟩

theorem FromLost.extends_ {lost lost' : List ProperDirective} (h : FromLost store lost key)
    (hextends : Extends store store') (hlost : lost ⊆ lost') : FromLost store' lost' key := by
  obtain ⟨d, hd, asked, slot, htarget, hlookup, hreaches⟩ := h
  exact ⟨d, hlost hd, asked, slot, htarget, hextends.index hlookup, hreaches.extends_ hextends⟩

/-- What is dropped asks for the types of the directives that are lost with it. -/
theorem mem_requests_dropped {inner : Opening} {outer : List Opening} {final : ProperItem}
    (h : key ∈ (Stretch.dropped inner outer final).requests) :
    ∃ d ∈ (Stretch.dropped inner outer final).lost, d.meaning.target? = some key := by
  obtain ⟨item, hitem, hkey⟩ := List.mem_filterMap.mp h
  rw [ProperItem.key?_eq] at hkey
  obtain ⟨d, hd, htarget⟩ := Option.bind_eq_some_iff.mp hkey
  exact ⟨d, List.mem_filterMap.mpr ⟨item, hitem, hd⟩, htarget⟩

/-- The new keys of one stretch. -/
theorem from_stretch (store : TypeStore) (stretch : Stretch) (hold : key ∉ store.keys)
    (hnew : key ∈ (store.askAll stretch.requests).keys) :
    FromFound (store.askAll stretch.requests)
        (Stretch.directives (fun key store => store.get key) [stretch] store) key ∨
      FromLost (store.askAll stretch.requests) stretch.lost key := by
  cases stretch with
  | text cs => exact absurd hnew hold
  | found d =>
    left
    have hanswer := d.meaning.answer_fst (fun key store => store.get key) store
    simp only [Stretch.requests] at hnew ⊢
    cases htarget : d.meaning.target? with
    | none =>
      rw [htarget] at hnew
      exact absurd hnew hold
    | some asked =>
      rw [htarget] at hnew
      refine ⟨_, List.mem_singleton_self _, (store.get asked).1, ?_, ?_⟩
      · simp only [hanswer, Directive.target?_map, htarget, Option.map_some]
      · exact reaches_of_get store hold hnew
  | dropped inner outer final =>
    right
    obtain ⟨asked, hasked, slot, hslot, hreaches⟩ := reaches_of_askAll store hold hnew
    obtain ⟨d, hd, htarget⟩ := mem_requests_dropped hasked
    exact ⟨d, hd, asked, slot, htarget, hslot, hreaches⟩

/-- The new keys of all stretches. -/
theorem from_stretches (store : TypeStore) (stretches : List Stretch) (hold : key ∉ store.keys)
    (hnew : key ∈ (store.askAll (stretches.flatMap Stretch.requests)).keys) :
    FromFound (store.askAll (stretches.flatMap Stretch.requests))
        (Stretch.directives (fun key store => store.get key) stretches store) key ∨
      FromLost (store.askAll (stretches.flatMap Stretch.requests))
        (stretches.flatMap Stretch.lost) key := by
  induction stretches generalizing store with
  | nil => exact absurd hnew hold
  | cons stretch stretches ih =>
    have hask : store.askAll ((stretch :: stretches).flatMap Stretch.requests) =
        (store.askAll stretch.requests).askAll (stretches.flatMap Stretch.requests) := by
      rw [List.flatMap_cons, askAll, List.foldl_append]
      rfl
    have hdirectives := Stretch.directives_append (fun key store => store.get key) [stretch]
      stretches store
    rw [List.singleton_append, List.flatMap_singleton] at hdirectives
    rw [hask] at hnew ⊢
    rw [hdirectives, List.flatMap_cons]
    have hgrows := askAll_grows (store.askAll stretch.requests) (stretches.flatMap Stretch.requests)
    by_cases hfirst : key ∈ (store.askAll stretch.requests).keys
    · obtain hfound | hlost := from_stretch store stretch hold hfirst
      · exact .inl (hfound.extends_ hgrows.extends_ (List.subset_append_left _ _))
      · exact .inr (hlost.extends_ hgrows.extends_ (List.subset_append_left _ _))
    · obtain hfound | hlost := ih _ hfirst hnew
      · exact .inl (hfound.extends_ (extends_refl _) (List.subset_append_right _ _))
      · exact .inr (hlost.extends_ (extends_refl _) (List.subset_append_right _ _))

end

/-! ## Comments -/

/-- Stretches without a directive ask for nothing. -/
theorem requests_eq_nil {stretches : List Stretch} (hfound : ∀ s ∈ stretches, s.found? = none)
    (hlost : stretches.flatMap Stretch.lost = []) : stretches.flatMap Stretch.requests = [] := by
  rw [List.flatMap_eq_nil_iff] at hlost ⊢
  intro stretch hstretch
  cases stretch with
  | text cs => rfl
  | found d => cases hfound _ hstretch
  | dropped inner outer final =>
    rw [List.eq_nil_iff_forall_not_mem]
    intro key hkey
    obtain ⟨d, hd, -⟩ := mem_requests_dropped hkey
    rw [hlost _ hstretch] at hd
    exact List.not_mem_nil hd

/-- The types that a comment adds to the store are those that its directives name,
and what these spell: directives that it gives, or ones that were read as
arguments of a directive that is dropped. Without any of these it changes
nothing. -/
theorem a_comment_adds_what_its_directives_name (store : TypeStore) (comment : String) :
    ∃ stretches : List Stretch, stretches.flatMap Stretch.chars = comment.toList ∧
      store.readComment comment =
        (Stretch.directives (fun key store => store.get key) stretches store,
          store.askAll (stretches.flatMap Stretch.requests)) ∧
      (∀ key ∈ (store.readComment comment).2.keys, key ∉ store.keys →
        FromFound (store.readComment comment).2 (store.readComment comment).1 key ∨
          FromLost (store.readComment comment).2 (stretches.flatMap Stretch.lost) key) ∧
      ((store.readComment comment).1 = [] → stretches.flatMap Stretch.lost = [] →
        (store.readComment comment).2 = store) := by
  obtain ⟨stretches, hchars, hparse⟩ := CommentReading.exists_stretches comment.toList
  have hread : store.readComment comment =
      (Stretch.directives (fun key store => store.get key) stretches store,
        store.askAll (stretches.flatMap Stretch.requests)) := by
    rw [readComment, hparse]
    rfl
  refine ⟨stretches, hchars, hread, ?_, ?_⟩
  · intro key hnew hold
    rw [hread] at hnew ⊢
    exact from_stretches store stretches hold hnew
  · intro hnone hlost
    rw [hread] at hnone ⊢
    rw [requests_eq_nil ((Stretch.directives_eq_nil_iff _).mp hnone) hlost]
    rfl

/-- The note is no directive, so it is dropped with the pointer inside. -/
theorem a_pointer_inside_a_note_leaves_its_type_behind :
    let answer := (empty 4).readComment "@note(@ptr(Ghost))"
    (empty 4).keys = [] ∧ answer.1 = [] ∧ answer.2.unresolved = [.root "Ghost"] ∧
      ¬∀ key ∈ answer.2.keys, key ∉ (empty 4).keys → FromFound answer.2 answer.1 key := by
  intro answer
  have hempty : (empty 4).keys = [] := by decide +kernel
  have hnone : answer.1 = [] := by decide +kernel
  have hghost : answer.2.unresolved = [.root "Ghost"] := by decide +kernel
  refine ⟨hempty, hnone, hghost, ?_⟩
  intro hall
  have hkey : .root "Ghost" ∈ answer.2.keys :=
    List.mem_of_mem_filter (hghost ▸ List.mem_singleton_self _)
  obtain ⟨d, hd, -⟩ := hall _ hkey (by rw [hempty]; exact List.not_mem_nil)
  rw [hnone] at hd
  exact List.not_mem_nil hd

end TypeStore

end BinaryAtlas
