-- The laws of what comments say. A comment gives directives and asks for keys, and
-- its text alone tells which ones. So members get the same directives in every store,
-- if the slot of each key is exchanged for a number of the key.
import BinaryAtlas.Proofs.Comments
import BinaryAtlas.Proofs.SameView
import BinaryAtlas.Proofs.TwoReadings

namespace BinaryAtlas

/-! ## What a comment says -/

namespace Directive

/-- The directives of a comment, with keys in the place of references, and all keys
that it asks for. -/
def readKeys (comment : String) : List (Directive TypeKey) × List TypeKey :=
  parse (fun key asked => (key, asked ++ [key])) comment.toList []

section

variable {store : TypeStore} {d : Directive Slot} {d' : Directive TypeKey}

theorem Alike.map_number (h : d.Alike (fun _ r key => store.keyAt? r = some key) d')
    (number : Option TypeKey → Slot) :
    d.map (fun r => number (store.keyAt? r)) = d'.map fun key => number (some key) := by
  induction h with
  | pointsTo path hr => rw [Directive.map, Directive.map, hr]
  | readAs path hr => rw [Directive.map, Directive.map, hr]
  | lengthFrom member => rfl
  | child path _ ih => exact congrArg (Directive.child path) ih

theorem Alike.lt_size (h : d.Alike (fun _ r key => store.keyAt? r = some key) d') :
    ∀ r ∈ d.target?, r < store.slots.size := by
  induction h with
  | pointsTo path hr => simpa [target?] using TypeStore.lt_of_keyAt? hr
  | readAs path hr => simpa [target?] using TypeStore.lt_of_keyAt? hr
  | lengthFrom member => exact fun r hr => absurd hr (Option.not_mem_none r)
  | child path _ ih => exact ih

end

end Directive

namespace TypeStore

/-- A store that is asked for keys goes together with the list of those keys. -/
theorem together_askAll {store : TypeStore} (hi : Indexed store) :
    Directive.Together (fun key next => TypeStore.get next key)
      (fun key asked => (key, asked ++ [key])) (fun next asked => next = store.askAll asked)
      fun next _ _ r key => next.keyAt? r = some key where
  same key h := by
    rw [h, askAll_append]
    rfl
  answer {next asked path key} h _ := by
    rw [h]
    exact keyAt?_get ((askAll_grows store asked).indexed hi) key.trimmed
  keeps {next _} key _ _ _ _ hr := (get_gets next key).grows.extends_.keyAt? hr

/-- A comment asks for the same keys in every store, and names them by its
directives. -/
theorem readComment_told {store : TypeStore} (hi : Indexed store) (comment : String) :
    (store.readComment comment).2 = store.askAll (Directive.readKeys comment).2 ∧
      List.Forall₂
        (Directive.Alike fun _ r key => (store.readComment comment).2.keyAt? r = some key)
        (store.readComment comment).1 (Directive.readKeys comment).1 := by
  have hstart : store = store.askAll [] := rfl
  exact (together_askAll hi).parse hstart comment.toList

end TypeStore

/-! ## What members say -/

/-- The keys that the comment of the member asks for. -/
def Member.asked (m : Member) : List TypeKey :=
  match m.comment with
  | none => []
  | some comment => (Directive.readKeys comment).2

/-- The member with the directives of its comment, and the numbers of keys in the place
of their references. -/
def Member.commented (number : Option TypeKey → Slot) (m : Member) : Member :=
  match m.comment with
  | none => m
  | some comment =>
    let directives := (Directive.readKeys comment).1.map (·.map fun key => number (some key))
    { m with directives := m.directives ++ directives }

namespace Member

theorem commented_of_none (number : Option TypeKey → Slot) {m : Member} (h : m.comment = none) :
    m.commented number = m := by
  unfold commented
  rw [h]

theorem commented_of_some (number : Option TypeKey → Slot) {m : Member} {comment : String}
    (h : m.comment = some comment) : m.commented number =
      { m with directives := m.directives ++
          (Directive.readKeys comment).1.map (·.map fun key => number (some key)) } := by
  unfold commented
  split
  · rename_i hnone
    rw [h] at hnone
    cases hnone
  · rename_i hsome
    obtain rfl := Option.some.inj (h.symm.trans hsome)
    rfl

theorem asked_commented (number : Option TypeKey → Slot) (m : Member) :
    (m.commented number).asked = m.asked := by
  unfold commented
  split <;> rfl

end Member

namespace Shape

theorem layout?_mapRefs (f : Slot → Slot) (shape : Shape) :
    (shape.mapRefs f).layout? = shape.layout?.map (·.mapRefs f) := by
  cases shape <;> rfl

theorem mapRefs_withLayout (f : Slot → Slot) (layout : Layout) (shape : Shape) :
    (shape.withLayout layout).mapRefs f = (shape.mapRefs f).withLayout (layout.mapRefs f) := by
  cases shape <;> rfl

theorem refs_of_layout? {shape : Shape} {layout : Layout} (h : shape.layout? = some layout) :
    shape.refs = layout.members.flatMap Member.refs := by
  cases shape with
  | struct _ =>
    obtain rfl := Option.some.inj h
    rfl
  | union _ =>
    obtain rfl := Option.some.inj h
    rfl
  | _ => cases h

theorem layout?_withLayout {shape : Shape} {layout : Layout} (h : shape.layout? = some layout)
    (other : Layout) : (shape.withLayout other).layout? = some other := by
  cases shape with
  | struct _ => rfl
  | union _ => rfl
  | _ => cases h

/-- The keys that the comments of all members ask for. -/
def asked (shape : Shape) : List TypeKey :=
  match shape.layout? with
  | none => []
  | some layout => layout.members.flatMap Member.asked

/-- The shape with the directives of all members. -/
def commented (number : Option TypeKey → Slot) (shape : Shape) : Shape :=
  match shape.layout? with
  | none => shape
  | some layout =>
    shape.withLayout { layout with members := layout.members.map (Member.commented number) }

section

variable {shape : Shape} {layout : Layout} {number : Option TypeKey → Slot}

theorem asked_of_none (h : shape.layout? = none) : shape.asked = [] := by
  unfold asked
  rw [h]

theorem asked_of_layout? (h : shape.layout? = some layout) :
    shape.asked = layout.members.flatMap Member.asked := by
  unfold asked
  rw [h]

theorem commented_of_none (h : shape.layout? = none) : shape.commented number = shape := by
  unfold commented
  rw [h]

theorem commented_of_layout? (h : shape.layout? = some layout) : shape.commented number =
    shape.withLayout { layout with members := layout.members.map (Member.commented number) } := by
  unfold commented
  rw [h]

/-- Directives ask for nothing more. -/
theorem asked_commented (number : Option TypeKey → Slot) (shape : Shape) :
    (shape.commented number).asked = shape.asked := by
  cases h : shape.layout? with
  | none => rw [commented_of_none h]
  | some layout =>
    rw [commented_of_layout? h, asked_of_layout? (layout?_withLayout h _), asked_of_layout? h,
      List.flatMap_map]
    simp only [Member.asked_commented]

/-- References do not show in what comments ask for. -/
theorem asked_mapRefs (f : Slot → Slot) (shape : Shape) :
    (shape.mapRefs f).asked = shape.asked := by
  have hmapped := layout?_mapRefs f shape
  cases h : shape.layout? with
  | none =>
    rw [h, Option.map_none] at hmapped
    rw [asked_of_none h, asked_of_none hmapped]
  | some layout =>
    rw [h, Option.map_some] at hmapped
    rw [asked_of_layout? h, asked_of_layout? hmapped, Layout.mapRefs, List.flatMap_map]
    rfl

end

end Shape

/-- The type with the directives of all members. -/
def Entity.commented (number : Option TypeKey → Slot) (e : Entity) : Entity :=
  { e with shape := e.shape.commented number }

theorem Entity.commented_spelled (number : Option TypeKey → Slot) (key : TypeKey) :
    (spelled number key).commented number = spelled number key :=
  congrArg (Entity.mk key) (Shape.commented_of_none (Shape.layout?_spelled number key))

namespace TypeStore

section

variable {store : TypeStore}

/-! ## Directives of members -/

theorem attachMember_of_none (store : TypeStore) {m : Member} (h : m.comment = none) :
    store.attachMember m = (m, store) := by
  unfold attachMember
  rw [h]

theorem attachMember_of_some (store : TypeStore) {m : Member} {comment : String}
    (h : m.comment = some comment) :
    store.attachMember m = ({ m with directives := m.directives ++ (store.readComment comment).1 },
      (store.readComment comment).2) := by
  unfold attachMember
  split
  · rename_i hnone
    rw [h] at hnone
    cases hnone
  · rename_i hsome
    obtain rfl := Option.some.inj (h.symm.trans hsome)
    rfl

/-- The references of the member are slots of the store, and with numbers in their
place it is the other member. -/
structure Numbered (store : TypeStore) (number : Option TypeKey → Slot) (m numbered : Member) :
    Prop where
  same : m.mapRefs (fun r => number (store.keyAt? r)) = numbered
  refs : ∀ r ∈ m.refs, r < store.slots.size

section

variable {number : Option TypeKey → Slot} {m numbered : Member}

theorem Numbered.extends_ {next : TypeStore} (h : Numbered store number m numbered)
    (hextends : Extends store next) : Numbered next number m numbered where
  same := by
    rw [← h.same]
    apply Member.mapRefs_congr
    intro r hr
    rw [hextends.keyAt?_of_lt (h.refs r hr)]
  refs r hr := hextends.lt_size (h.refs r hr)

theorem Numbered.comment (h : Numbered store number m numbered) : numbered.comment = m.comment := by
  rw [← h.same]
  rfl

/-- Directives with references of the store come to those with numbers. -/
theorem Numbered.addDirectives (h : Numbered store number m numbered) {ds : List (Directive Slot)}
    {ds' : List (Directive TypeKey)}
    (hds : List.Forall₂ (Directive.Alike fun _ r key => store.keyAt? r = some key) ds ds') :
    Numbered store number { m with directives := m.directives ++ ds }
      { numbered with
        directives := numbered.directives ++ ds'.map (·.map fun key => number (some key)) } where
  same := by
    have hmap : ds.map (·.map fun r => number (store.keyAt? r)) =
        ds'.map (·.map fun key => number (some key)) := by
      rw [← List.forall₂_eq_eq_eq, List.forall₂_map_left_iff, List.forall₂_map_right_iff]
      exact hds.imp fun _ _ hd => hd.map_number number
    simp only [← h.same, Member.mapRefs, List.map_append, hmap]
  refs := by
    intro r hr
    simp only [Member.refs, List.filterMap_append, List.mem_append] at hr
    rcases hr with (hold | hnew) | htype
    · exact h.refs r (List.mem_append_left _ hold)
    · obtain ⟨d, hd, htarget⟩ := List.mem_filterMap.mp hnew
      obtain ⟨d', -, hd'⟩ := exists_of_forall₂ hds.flip hd
      exact hd'.lt_size r htarget
    · exact h.refs r (List.mem_append_right _ htype)

theorem attachMember_snd (hi : Indexed store) (m : Member) :
    (store.attachMember m).2 = store.askAll m.asked := by
  unfold attachMember Member.asked
  cases m.comment with
  | none => rfl
  | some comment => exact (readComment_told hi comment).1

theorem attachMember_numbered (hi : Indexed store) (h : Numbered store number m numbered) :
    Numbered (store.attachMember m).2 number (store.attachMember m).1
      (numbered.commented number) := by
  cases hcomment : m.comment with
  | none =>
    rw [attachMember_of_none store hcomment,
      Member.commented_of_none number (h.comment.trans hcomment)]
    exact h
  | some comment =>
    rw [attachMember_of_some store hcomment,
      Member.commented_of_some number (h.comment.trans hcomment)]
    exact (h.extends_ (store.readComment_grows comment).extends_).addDirectives
      (readComment_told hi comment).2

end

theorem attachMembers_snd (hi : Indexed store) (members : List Member) :
    (store.attachMembers members).2 = store.askAll (members.flatMap Member.asked) := by
  induction members generalizing store with
  | nil => rfl
  | cons m members ih =>
    have hnext := (store.attachMember_ok m).1.indexed hi
    rw [List.flatMap_cons, askAll_append, ← attachMember_snd hi, ← ih hnext]
    rfl

theorem attachMembers_numbered (hi : Indexed store) {number : Option TypeKey → Slot}
    {members numbered : List Member}
    (h : List.Forall₂ (Numbered store number) members numbered) :
    List.Forall₂ (Numbered (store.attachMembers members).2 number) (store.attachMembers members).1
      (numbered.map (Member.commented number)) := by
  induction members generalizing store numbered with
  | nil =>
    cases h
    exact .nil
  | cons m members ih =>
    obtain _ | ⟨hm, hrest⟩ := h
    have hgrows := (store.attachMember_ok m).1
    have hmore := ((store.attachMember m).2.attachMembers_ok members).1
    exact .cons ((attachMember_numbered hi hm).extends_ hmore.extends_)
      (ih (hgrows.indexed hi) (hrest.imp fun _ _ hn => hn.extends_ hgrows.extends_))

/-! ## Directives of one key -/

theorem attachKey_of_layout? {key : TypeKey} {slot : Slot} {e : Entity} {layout : Layout}
    (hkey : store.lookup key = some slot) (he : store.entity? slot = some e)
    (hlayout : e.shape.layout? = some layout) :
    store.attachKey key = (store.attachMembers layout.members).2.setShape slot
      (e.shape.withLayout
        { layout with members := (store.attachMembers layout.members).1 }) := by
  simp only [attachKey, hkey, he, hlayout]

/-- A key without a layout gets nothing. -/
theorem attachKey_eq_self {key : TypeKey}
    (h : (store.byKey? key).bind (·.shape.layout?) = none) : store.attachKey key = store := by
  unfold attachKey
  split
  · rfl
  · rename_i slot hkey
    split
    · rfl
    · rename_i e he
      rw [byKey?, hkey, Option.bind_some, he, Option.bind_some] at h
      rw [h]

theorem sound_withMembers (h : Sound store) {slot : Slot} {e : Entity} {layout : Layout}
    (he : store.entity? slot = some e) (hlayout : e.shape.layout? = some layout)
    {members : List Member} (hrefs : ∀ m ∈ members, ∀ r ∈ m.refs, r < store.slots.size) :
    Sound (store.setShape slot (e.shape.withLayout { layout with members })) := by
  apply sound_setShape h he _ (isPlaceholder_withLayout e.shape { layout with members })
  rw [Shape.refs_of_layout? (Shape.layout?_withLayout hlayout { layout with members })]
  intro r hr
  obtain ⟨m, hm, hr⟩ := List.mem_flatMap.mp hr
  exact hrefs m hm r hr

/-- The directives of a key's members leave every slot its key. -/
theorem keyAt?_attachKey (key : TypeKey) {r : Slot} {old : TypeKey}
    (hr : store.keyAt? r = some old) : (store.attachKey key).keyAt? r = some old := by
  unfold attachKey
  split
  · exact hr
  · split
    · exact hr
    · split
      · exact hr
      · rename_i layout _
        rw [keyAt?_setShape]
        exact (store.attachMembers_ok layout.members).1.extends_.keyAt? hr

theorem keyAt?_attachDirectives (keys : List TypeKey) {r : Slot} {key : TypeKey}
    (hr : store.keyAt? r = some key) : (store.attachDirectives keys).keyAt? r = some key := by
  induction keys generalizing store with
  | nil => exact hr
  | cons first keys ih => exact ih (keyAt?_attachKey first hr)

end

end TypeStore

end BinaryAtlas
