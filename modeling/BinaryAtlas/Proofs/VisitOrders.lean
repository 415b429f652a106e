-- The laws of the order of visits. What a store says of each key after all comments
-- is told by what it said before them: types have the directives of their comments,
-- and what comments ask for is there as it is spelled. So the order in which keys are
-- visited decides the slots of the types that comments name, and nothing else.
import BinaryAtlas.Proofs.SameComments

namespace BinaryAtlas

namespace TypeStore

section

variable {store : TypeStore}

/-! ## Views of comments -/

/-- The comments of some keys ask for the key, or for one that spells it. -/
def AskedBy (store : TypeStore) (number : Option TypeKey → Slot) (visited : List TypeKey)
    (key : TypeKey) : Prop :=
  ∃ first ∈ visited, ∃ e, store.view number first = some e ∧ ∃ asked ∈ e.shape.asked,
    asked.Spells key

/-- What visits to some keys come to. Types have the directives of their comments if they
were visited, and what comments ask for is added as it is spelled. -/
structure Attached (visited : List TypeKey) (store last : TypeStore) : Prop where
  sound : Sound last
  pointerSize : last.pointerSize = store.pointerSize
  old : ∀ {number key e}, store.view number key = some e →
    last.view number key = some (if key ∈ visited then e.commented number else e)
  new : ∀ {number key e}, store.view number key = none →
    (last.view number key = some e ↔ e = .spelled number key ∧ AskedBy store number visited key)

/-! ## Visits one after the other -/

theorem attached_nothing (h : Sound store) : Attached [] store store where
  sound := h
  pointerSize := rfl
  old he := he
  new hnone := by simp [hnone, AskedBy]

section

variable {mid last : TypeStore} {visited later : List TypeKey}

theorem Attached.asked_of_some (h : Attached visited store mid) {number : Option TypeKey → Slot}
    {key : TypeKey} {e : Entity} (he : store.view number key = some e) :
    ∃ e', mid.view number key = some e' ∧ e'.shape.asked = e.shape.asked := by
  refine ⟨_, h.old he, ?_⟩
  split
  · exact e.shape.asked_commented number
  · rfl

/-- Types that comments have asked for have no comments, so the same is asked for after
some visits as before them. -/
theorem Attached.askedBy_iff (h : Attached visited store mid) {number : Option TypeKey → Slot}
    {key : TypeKey} : AskedBy mid number later key ↔ AskedBy store number later key := by
  constructor
  · rintro ⟨first, hfirst, e, he, hasked⟩
    cases hview : store.view number first with
    | none =>
      obtain ⟨rfl, -⟩ := (h.new hview).mp he
      obtain ⟨asked, hmem, -⟩ := hasked
      rw [Entity.spelled, Shape.asked_of_none (Shape.layout?_spelled number first)] at hmem
      cases hmem
    | some old =>
      obtain ⟨e', he', hsame⟩ := h.asked_of_some hview
      obtain rfl := Option.some.inj (he'.symm.trans he)
      exact ⟨first, hfirst, old, hview, hsame ▸ hasked⟩
  · rintro ⟨first, hfirst, e, he, hasked⟩
    obtain ⟨e', he', hsame⟩ := h.asked_of_some he
    exact ⟨first, hfirst, e', he', hsame ▸ hasked⟩

theorem askedBy_append {number : Option TypeKey → Slot} {key : TypeKey} :
    AskedBy store number (visited ++ later) key ↔
      AskedBy store number visited key ∨ AskedBy store number later key := by
  simp only [AskedBy, List.mem_append, or_and_right, exists_or]

/-- Some visits, and then visits to other keys: a second visit to a key would give its
members their directives once more. -/
theorem Attached.trans (h : Attached visited store mid) (h' : Attached later mid last)
    (hapart : visited.Disjoint later) : Attached (visited ++ later) store last where
  sound := h'.sound
  pointerSize := h'.pointerSize.trans h.pointerSize
  old {number key e} he := by
    have hmid := h'.old (h.old he)
    by_cases hkey : key ∈ visited
    · have hlater : key ∉ later := hapart hkey
      rw [if_pos hkey, if_neg hlater] at hmid
      rw [hmid, if_pos (List.mem_append_left later hkey)]
    · rw [if_neg hkey] at hmid
      simp only [hmid, List.mem_append, hkey, false_or]
  new {number key e} hnone := by
    rw [askedBy_append]
    cases hmid : mid.view number key with
    | none =>
      have hold : ¬AskedBy store number visited key := by
        intro hasked
        have hmade := (h.new hnone).mpr ⟨rfl, hasked⟩
        rw [hmid] at hmade
        cases hmade
      rw [h'.new hmid, h.askedBy_iff]
      simp only [hold, false_or]
    | some made =>
      -- What the first visits add has no comment, so the later ones leave it as it is.
      obtain ⟨rfl, hasked⟩ := (h.new hnone).mp hmid
      have hlast := h'.old hmid
      rw [Entity.commented_spelled, ite_self] at hlast
      rw [hlast, Option.some.injEq]
      exact ⟨fun heq => ⟨heq.symm, .inl hasked⟩, fun heq => heq.1.symm⟩

end

/-! ## One visit -/

theorem askedBy_singleton {number : Option TypeKey → Slot} {key other : TypeKey} {e : Entity}
    (he : store.view number key = some e) :
    AskedBy store number [key] other ↔ ∃ asked ∈ e.shape.asked, asked.Spells other := by
  simp [AskedBy, he]

/-- A visit changes nothing where there are no members. -/
theorem attached_of_layout?_none (h : Sound store) {key : TypeKey}
    (hlayout : (store.byKey? key).bind (·.shape.layout?) = none) : Attached [key] store store := by
  have hsilent {number : Option TypeKey → Slot} {e : Entity}
      (he : store.view number key = some e) : e.shape.layout? = none := by
    obtain ⟨old, hold, rfl⟩ := view_eq_some.mp he
    rw [hold, Option.bind_some] at hlayout
    rw [numbered, Entity.mapRefs, Shape.layout?_mapRefs, hlayout, Option.map_none]
  refine ⟨h, rfl, ?_, ?_⟩
  · intro number other e he
    split
    · rename_i hother
      obtain rfl := List.mem_singleton.mp hother
      rw [he, Entity.commented, Shape.commented_of_none (hsilent he)]
    · exact he
  · intro number other e hnone
    have hasked : ¬AskedBy store number [key] other := by
      rintro ⟨first, hfirst, e, he, asked, hmem, -⟩
      obtain rfl := List.mem_singleton.mp hfirst
      rw [Shape.asked_of_none (hsilent he)] at hmem
      cases hmem
    simp [hnone, hasked]

/-- New members that say what the old ones and their comments say. -/
theorem numbered_withLayout {number : Option TypeKey → Slot} {e : Entity} {layout : Layout}
    (h : e.shape.layout? = some layout) {members : List Member} {next : TypeStore}
    (hkeys : ∀ r ∈ e.refs, next.keyAt? r = store.keyAt? r)
    (hmembers : List.Forall₂ (Numbered next number) members
      ((layout.members.map (·.mapRefs fun r => number (store.keyAt? r))).map
        (Member.commented number))) :
    next.numbered number { e with shape := e.shape.withLayout { layout with members } } =
      (store.numbered number e).commented number := by
  have hsame : members.map (·.mapRefs fun r => number (next.keyAt? r)) =
      (layout.members.map (·.mapRefs fun r => number (store.keyAt? r))).map
        (Member.commented number) := by
    rw [← List.forall₂_eq_eq_eq, List.forall₂_map_left_iff]
    exact hmembers.imp fun _ _ hm => hm.same
  have hlayout : (store.numbered number e).shape.layout? =
      some (layout.mapRefs fun r => number (store.keyAt? r)) := by
    rw [numbered, Entity.mapRefs, Shape.layout?_mapRefs, h, Option.map_some]
  have hshape : e.shape.mapRefs (fun r => number (next.keyAt? r)) =
      e.shape.mapRefs fun r => number (store.keyAt? r) :=
    Shape.mapRefs_congr fun r hr => by rw [hkeys r hr]
  rw [Entity.commented, Shape.commented_of_layout? hlayout, numbered, Entity.mapRefs,
    Shape.mapRefs_withLayout, hshape, Layout.mapRefs, hsame]
  rfl

/-- Requests for what the comments of a type ask for, and then members with the
directives in the place of the old ones. -/
theorem attached_setShape (h : Sound store) {key : TypeKey} {slot : Slot} {e : Entity}
    {layout : Layout} (hkey : store.lookup key = some slot) (he : store.entity? slot = some e)
    (hlayout : e.shape.layout? = some layout) {members : List Member} {next : TypeStore}
    (hasked : Requested (fun other => ∃ asked ∈ e.shape.asked, asked.Spells other) store next)
    (hmembers : ∀ number, List.Forall₂ (Numbered next number) members
      ((layout.members.map (·.mapRefs fun r => number (store.keyAt? r))).map
        (Member.commented number))) :
    Attached [key] store (next.setShape slot (e.shape.withLayout { layout with members })) := by
  have hextends := hasked.grows.extends_
  have hnext := hasked.sound h
  have hrefs : ∀ m ∈ members, ∀ r ∈ m.refs, r < next.slots.size := by
    intro m hm
    obtain ⟨numbered, -, hnumbered⟩ := exists_of_forall₂ (hmembers fun _ => 0).flip hm
    exact hnumbered.refs
  have hold (number : Option TypeKey → Slot) :
      store.view number key = some (store.numbered number e) :=
    view_eq_some.mpr ⟨e, byKey?_eq_some.mpr ⟨slot, hkey, he⟩, rfl⟩
  have hview (number : Option TypeKey → Slot) (other : TypeKey) :
      (next.setShape slot (e.shape.withLayout { layout with members })).view number other =
        if key = other then some ((store.numbered number e).commented number)
        else next.view number other := by
    rw [view_setShape hnext.indexed (hextends.index hkey) (hextends.slots he),
      numbered_withLayout hlayout (fun r hr => hextends.keyAt?_of_lt (h.closed slot e he r hr))
        (hmembers number)]
  refine ⟨sound_withMembers hnext (hextends.slots he) hlayout hrefs, hextends.pointerSize, ?_, ?_⟩
  · intro number other old hsome
    rw [hview]
    by_cases hother : key = other
    · subst hother
      obtain rfl := Option.some.inj (hsome.symm.trans (hold number))
      rw [if_pos rfl, if_pos List.mem_cons_self]
    · rw [if_neg hother, if_neg (by simpa using Ne.symm hother)]
      exact hasked.view_of_some h hsome
  · intro number other made hnone
    have hother : key ≠ other := by
      rintro rfl
      rw [hold number] at hnone
      cases hnone
    rw [hview, if_neg hother, hasked.view_of_none h hnone, askedBy_singleton (hold number)]
    simp only [numbered, Entity.mapRefs, Shape.asked_mapRefs]

theorem attached_attachKey (h : Sound store) (key : TypeKey) :
    Attached [key] store (store.attachKey key) := by
  cases hlayout : (store.byKey? key).bind (·.shape.layout?) with
  | none =>
    rw [attachKey_eq_self hlayout]
    exact attached_of_layout?_none h hlayout
  | some layout =>
    obtain ⟨e, he, hlayout⟩ := Option.bind_eq_some_iff.mp hlayout
    obtain ⟨slot, hkey, hslot⟩ := byKey?_eq_some.mp he
    have hrefs : ∀ m ∈ layout.members, ∀ r ∈ m.refs, r < store.slots.size := by
      intro m hm r hr
      apply h.closed slot e hslot r
      rw [Entity.refs, Shape.refs_of_layout? hlayout]
      exact List.mem_flatMap.mpr ⟨m, hm, hr⟩
    -- For the store, reading all the comments is a row of requests.
    have hread : (store.attachMembers layout.members).2 = store.askAll e.shape.asked := by
      rw [attachMembers_snd h.indexed, Shape.asked_of_layout? hlayout]
    have hasked := askAll_requested h.indexed h.innerKnown e.shape.asked
    rw [← hread] at hasked
    rw [attachKey_of_layout? hkey hslot hlayout]
    apply attached_setShape h hkey hslot hlayout hasked
    intro number
    apply attachMembers_numbered h.indexed
    rw [List.forall₂_map_right_iff, List.forall₂_same]
    exact fun m hm => ⟨rfl, hrefs m hm⟩

/-! ## All visits -/

theorem attached_attachDirectives (h : Sound store) {keys : List TypeKey} (hkeys : keys.Nodup) :
    Attached keys store (store.attachDirectives keys) := by
  induction keys generalizing store with
  | nil => exact attached_nothing h
  | cons key keys ih =>
    obtain ⟨hkey, hkeys⟩ := List.nodup_cons.mp hkeys
    have hfirst := attached_attachKey h key
    exact hfirst.trans (ih hfirst.sound hkeys) (List.singleton_disjoint.mpr hkey)

end

/-- Stores that say the same go on doing so after all their comments, in whatever order
the keys of each are visited. -/
theorem attachDirectives_same {store store' : TypeStore} (h : Similar store store')
    {keys keys' : List TypeKey} (hkeys : keys.Perm store.keys) (hkeys' : keys'.Perm store'.keys) :
    Similar (store.attachDirectives keys) (store'.attachDirectives keys') := by
  have hnodup (store : TypeStore) : store.keys.Nodup := Std.ExtTreeMap.nodup_keys
  have hend := attached_attachDirectives h.sound (hkeys.nodup_iff.mpr (hnodup store))
  have hend' := attached_attachDirectives h.sound' (hkeys'.nodup_iff.mpr (hnodup store'))
  have hmem (key : TypeKey) : key ∈ keys' ↔ key ∈ keys := by
    rw [hkeys'.mem_iff, hkeys.mem_iff, h.keys]
  refine ⟨hend.sound, hend'.sound, ?_, ?_⟩
  · rw [hend.pointerSize, hend'.pointerSize, h.pointerSize]
  · intro number key
    have hview := h.view number key
    cases hfirst : store.view number key with
    | some e =>
      rw [hend.old hfirst, hend'.old (hview.trans hfirst)]
      simp only [hmem]
    | none =>
      ext e
      rw [hend.new hfirst, hend'.new (hview.trans hfirst)]
      simp only [AskedBy, hmem, h.view]

end TypeStore

end BinaryAtlas
