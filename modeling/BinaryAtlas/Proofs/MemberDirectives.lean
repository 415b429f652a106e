-- The laws of directives in a loaded program. A comment asks for types while
-- other comments still wait to be read, and the references are resolved after
-- all of them; in the end each member has just the directives that its comment
-- spells, and each of their references leads to the type that its path names.
import BinaryAtlas.Proofs.LoadedTypes
import BinaryAtlas.Proofs.SameComments
import BinaryAtlas.Proofs.Standing

namespace BinaryAtlas

open TypeStore Declaration

/-! ## Paths -/

/-- The slot that a path leads to, blanks around its scope and its name apart. -/
def TypeStore.atPath? (store : TypeStore) (path : String) : Option Slot :=
  (TypeKey.parse? path).bind fun key => store.lookup key.trimmed

namespace TypeStore

variable {store store' : TypeStore} {path : String} {slot : Slot}

theorem Extends.atPath? (h : Extends store store') (hslot : store.atPath? path = some slot) :
    store'.atPath? path = some slot := by
  obtain ⟨key, hpath, hkey⟩ := Option.bind_eq_some_iff.mp hslot
  rw [TypeStore.atPath?, hpath, Option.bind_some]
  exact h.index hkey

theorem SamePlaces.atPath? (h : SamePlaces store store') (path : String) :
    store'.atPath? path = store.atPath? path := by
  unfold TypeStore.atPath?
  simp only [h.lookup]

theorem atPath?_setShape (shape : Shape) :
    (store.setShape slot shape).atPath? path = store.atPath? path := rfl

/-- What a path leads to stays where it is when references are resolved. -/
theorem resolveSlot_of_atPath? (hi : Indexed store) (h : store.atPath? path = some slot) :
    store.resolveSlot slot = slot := by
  obtain ⟨key, -, hkey⟩ := Option.bind_eq_some_iff.mp h
  obtain ⟨e, he, hk⟩ := hi.registered hkey
  rw [← hk] at hkey
  exact resolveSlot_of_current he hkey

end TypeStore

/-! ## Directives -/

namespace Directive

variable {Ref Ref' : Type} {store store' : TypeStore}

/-- The directive without its reference. -/
def bare (d : Directive Ref) : Directive Unit := d.map fun _ => ()

/-- The references of the directive and of those inside it lead to the types of their
paths. -/
def LeadsIn (store : TypeStore) : Directive Slot → Prop
  | pointsTo path target => store.atPath? path = some target
  | readAs path target => store.atPath? path = some target
  | lengthFrom _ => True
  | child _ directive => directive.LeadsIn store

theorem Alike.bare {R : String → Ref → Ref' → Prop} {d : Directive Ref} {d' : Directive Ref'}
    (h : d.Alike R d') : d.bare = d'.bare := by
  induction h with
  | pointsTo path _ => rfl
  | readAs path _ => rfl
  | lengthFrom member => rfl
  | child path _ ih => exact congrArg (Directive.child path) ih

theorem Alike.leadsIn {d : Directive Slot} {d' : Directive Ref'}
    (h : d.Alike (fun path r _ => store.atPath? path = some r) d') : d.LeadsIn store := by
  induction h with
  | pointsTo path hr => exact hr
  | readAs path hr => exact hr
  | lengthFrom member => exact trivial
  | child path _ ih => exact ih

theorem LeadsIn.keeps {d : Directive Slot} (h : d.LeadsIn store)
    (hkeeps : ∀ path slot, store.atPath? path = some slot → store'.atPath? path = some slot) :
    d.LeadsIn store' := by
  induction d with
  | pointsTo path target => exact hkeeps path target h
  | readAs path target => exact hkeeps path target h
  | lengthFrom member => exact trivial
  | child path directive ih => exact ih h

/-- A resolution has nothing to move in such a directive. -/
theorem LeadsIn.map_resolveSlot {d : Directive Slot} (hi : Indexed store) (h : d.LeadsIn store) :
    d.map store.resolveSlot = d := by
  induction d with
  | pointsTo path target => rw [Directive.map, resolveSlot_of_atPath? hi h]
  | readAs path target => rw [Directive.map, resolveSlot_of_atPath? hi h]
  | lengthFrom member => rfl
  | child path directive ih => rw [Directive.map, ih h]

end Directive

namespace TypeStore

/-- A request answers with what the path of the key leads to, whatever another store
answers. -/
theorem together_atPath? : Directive.Together (fun key store => TypeStore.get store key)
    (fun key store => TypeStore.get store key) (fun _ _ => True)
    fun store _ path r _ => store.atPath? path = some r where
  same _ _ := trivial
  answer {store _ path key} _ hpath := by
    rw [atPath?, hpath, Option.bind_some]
    exact (get_gets store key.trimmed).lookup
  keeps {store _} key _ _ _ _ hr := (get_gets store key).grows.extends_.atPath? hr

end TypeStore

/-! ## Members -/

/-- The member has the directives that its comment spells, and they lead where they
should. What a comment spells is the same in every store. -/
structure Member.Commented (store : TypeStore) (m : Member) : Prop where
  silent : m.comment = none → m.directives = []
  spelled : ∀ comment, m.comment = some comment → ∀ other : TypeStore,
    m.directives.map Directive.bare = (other.readComment comment).1.map Directive.bare
  leads : ∀ d ∈ m.directives, d.LeadsIn store

/-- All members of a struct or union. -/
def Shape.Commented (store : TypeStore) (shape : Shape) : Prop :=
  ∀ layout, shape.layout? = some layout → ∀ m ∈ layout.members, m.Commented store

section

variable {store store' : TypeStore}

theorem Member.Commented.keeps {m : Member} (h : m.Commented store)
    (hkeeps : ∀ path slot, store.atPath? path = some slot → store'.atPath? path = some slot) :
    m.Commented store' :=
  { h with leads := fun d hd => (h.leads d hd).keeps hkeeps }

theorem Shape.Commented.keeps {shape : Shape} (h : shape.Commented store)
    (hkeeps : ∀ path slot, store.atPath? path = some slot → store'.atPath? path = some slot) :
    shape.Commented store' :=
  fun layout hlayout m hm => (h layout hlayout m hm).keeps hkeeps

/-- The resolution leaves the directives of members alone. -/
theorem Shape.Commented.mapRefs_resolveSlot {shape : Shape} (hi : Indexed store)
    (h : shape.Commented store) : (shape.mapRefs store.resolveSlot).Commented store := by
  intro layout hlayout m hm
  rw [Shape.layout?_mapRefs, Option.map_eq_some_iff] at hlayout
  obtain ⟨old, hold, rfl⟩ := hlayout
  obtain ⟨m, hmem, rfl⟩ := List.mem_map.mp hm
  have hcommented := h old hold m hmem
  have hdirectives : m.directives.map (·.map store.resolveSlot) = m.directives.map id :=
    List.map_congr_left fun d hd => (hcommented.leads d hd).map_resolveSlot hi
  rw [List.map_id] at hdirectives
  rw [Member.mapRefs, hdirectives]
  exact { hcommented with }

end

namespace TypeStore

/-! ## Comments of members -/

section

variable {store : TypeStore}

theorem attachMember_commented {m : Member} (h : m.directives = []) :
    (store.attachMember m).1.Commented (store.attachMember m).2 := by
  cases hcomment : m.comment with
  | none =>
    rw [attachMember_of_none store hcomment]
    refine ⟨fun _ => h, fun comment hsome => ?_, ?_⟩
    · rw [hcomment] at hsome
      cases hsome
    · rw [h]
      exact nofun
  | some comment =>
    have hboth (other : TypeStore) : List.Forall₂
        (Directive.Alike fun path r _ => (store.readComment comment).2.atPath? path = some r)
        (store.readComment comment).1 (other.readComment comment).1 :=
      (together_atPath?.parse trivial comment.toList).2
    rw [attachMember_of_some store hcomment, h, List.nil_append]
    refine ⟨fun hnone => ?_, ?_, ?_⟩
    · rw [hcomment] at hnone
      cases hnone
    · rintro comment' hsome other
      obtain rfl := Option.some.inj (hcomment.symm.trans hsome)
      rw [← List.forall₂_eq_eq_eq, List.forall₂_map_left_iff, List.forall₂_map_right_iff]
      exact (hboth other).imp fun _ _ hd => hd.bare
    · intro d hd
      obtain ⟨d', -, hd'⟩ := exists_of_forall₂ (hboth store).flip hd
      exact hd'.leadsIn

theorem attachMembers_commented (store : TypeStore) {members : List Member}
    (h : ∀ m ∈ members, m.directives = []) :
    ∀ m ∈ (store.attachMembers members).1, m.Commented (store.attachMembers members).2 := by
  induction members generalizing store with
  | nil => exact nofun
  | cons m members ih =>
    obtain ⟨hm, hrest⟩ := List.forall_mem_cons.mp h
    have hgrows := ((store.attachMember m).2.attachMembers_ok members).1
    refine List.forall_mem_cons.mpr ⟨?_, ih _ hrest⟩
    exact (attachMember_commented hm).keeps fun _ _ => hgrows.extends_.atPath?

/-! ## All comments -/

/-- A request makes no structs and no unions. -/
theorem layout?_of_isMade {e : Entity} (h : e.kind.isMade = true) : e.shape.layout? = none := by
  obtain ⟨key, shape⟩ := e
  cases shape with
  | struct layout => cases h
  | union layout => cases h
  | _ => rfl

/-- A struct or union of a store that has grown was there before. -/
theorem Grows.byKey?_of_layout? {store' : TypeStore} (h : Grows store store') (hi : Indexed store)
    {key : TypeKey} {e : Entity} {layout : Layout} (he : store'.byKey? key = some e)
    (hlayout : e.shape.layout? = some layout) : store.byKey? key = some e := by
  obtain ⟨slot, hkey, hslot⟩ := byKey?_eq_some.mp he
  rcases h.made hslot with hold | hmade
  · obtain ⟨old, hlookup⟩ := hi.known hold
    rw [(h.indexed hi).key_of_byKey? he] at hlookup
    obtain rfl := Option.some.inj ((h.extends_.index hlookup).symm.trans hkey)
    exact byKey?_eq_some.mpr ⟨old, hlookup, hold⟩
  · rw [layout?_of_isMade hmade] at hlayout
    cases hlayout

/-- What holds while the members of some keys still wait for their directives. -/
structure Attaching (waiting : List TypeKey) (store : TypeStore) : Prop where
  indexed : Indexed store
  done : ∀ key e, store.byKey? key = some e → key ∉ waiting → e.shape.Commented store
  bare : ∀ key e, store.byKey? key = some e → key ∈ waiting → Bare e.shape

theorem Attaching.grows {waiting : List TypeKey} {store' : TypeStore} (h : Attaching waiting store)
    (hgrows : Grows store store') : Attaching waiting store' where
  indexed := hgrows.indexed h.indexed
  done := by
    intro key e he hkey layout hlayout
    have hcommented := h.done key e (hgrows.byKey?_of_layout? h.indexed he hlayout) hkey
    exact (hcommented.keeps fun _ _ => hgrows.extends_.atPath?) layout hlayout
  bare := by
    intro key e he hkey layout hlayout
    exact h.bare key e (hgrows.byKey?_of_layout? h.indexed he hlayout) hkey layout hlayout

/-- A key that waited has its directives now, and no other type has changed. -/
theorem attaching_setShape {key : TypeKey} {waiting : List TypeKey}
    (h : Attaching (key :: waiting) store) (hwaiting : key ∉ waiting) {slot : Slot} {e : Entity}
    (hkey : store.lookup key = some slot) (he : store.entity? slot = some e) {shape : Shape}
    (hshape : shape.Commented store) : Attaching waiting (store.setShape slot shape) := by
  have hchanged := byKey?_setShape h.indexed hkey he shape
  have hsame (path : String) (target : Slot) (hpath : store.atPath? path = some target) :
      (store.setShape slot shape).atPath? path = some target := by
    rw [atPath?_setShape, hpath]
  refine ⟨indexed_setShape h.indexed slot shape, ?_, ?_⟩
  · intro other e' he' hother
    rw [hchanged] at he'
    split at he'
    · obtain rfl := Option.some.inj he'
      exact hshape.keeps hsame
    · rename_i hne
      exact (h.done other e' he' (by simp [Ne.symm hne, hother])).keeps hsame
  · intro other e' he' hmem
    have hne : key ≠ other := fun heq => hwaiting (heq ▸ hmem)
    rw [hchanged, if_neg hne] at he'
    exact h.bare other e' he' (List.mem_cons_of_mem _ hmem)

theorem attaching_attachKey {key : TypeKey} {waiting : List TypeKey}
    (h : Attaching (key :: waiting) store) (hwaiting : key ∉ waiting) :
    Attaching waiting (store.attachKey key) := by
  cases hlayout : (store.byKey? key).bind (·.shape.layout?) with
  | none =>
    rw [attachKey_eq_self hlayout]
    refine ⟨h.indexed, ?_, fun other e he hmem => h.bare other e he (List.mem_cons_of_mem _ hmem)⟩
    intro other e he hother layout hsome
    have hne : other ≠ key := by
      rintro rfl
      rw [he, Option.bind_some, hsome] at hlayout
      cases hlayout
    exact h.done other e he (by simp [hne, hother]) layout hsome
  | some layout =>
    obtain ⟨e, he, hlayout⟩ := Option.bind_eq_some_iff.mp hlayout
    obtain ⟨slot, hkey, hslot⟩ := byKey?_eq_some.mp he
    -- Reading the comments only adds types, so the entity at `slot` is still the bare one
    -- when its shape is replaced.
    have hgrows := (store.attachMembers_ok layout.members).1
    have hbare := h.bare key e he List.mem_cons_self layout hlayout
    rw [attachKey_of_layout? hkey hslot hlayout]
    apply attaching_setShape (h.grows hgrows) hwaiting (hgrows.extends_.index hkey)
      (hgrows.extends_.slots hslot)
    intro layout' hlayout'
    rw [Shape.layout?_withLayout hlayout] at hlayout'
    obtain rfl := Option.some.inj hlayout'
    exact attachMembers_commented store hbare

/-- Whatever the order in which all keys are visited, each type has its directives in
the end. -/
theorem attachDirectives_commented (hi : Indexed store)
    (hbare : ∀ key e, store.byKey? key = some e → Bare e.shape) {keys : List TypeKey}
    (hkeys : keys.Perm store.keys) {key : TypeKey} {e : Entity}
    (he : (store.attachDirectives keys).byKey? key = some e) :
    e.shape.Commented (store.attachDirectives keys) := by
  -- The keys that wait are those of the store before the first comment: a type that a
  -- comment adds has no layout, and so nothing to attach.
  have hrun (waiting : List TypeKey) : ∀ store : TypeStore, waiting.Nodup →
      Attaching waiting store → Attaching [] (store.attachDirectives waiting) := by
    induction waiting with
    | nil => exact fun _ _ h => h
    | cons key waiting ih =>
      intro store hnodup h
      obtain ⟨hkey, hnodup⟩ := List.nodup_cons.mp hnodup
      exact ih _ hnodup (attaching_attachKey h hkey)
  have hstart : Attaching keys store := by
    refine ⟨hi, fun key e he hmem => ?_, fun key e he _ => hbare key e he⟩
    exact absurd (hkeys.mem_iff.mpr ((mem_keys_iff_byKey? hi).mpr ⟨e, he⟩)) hmem
  have hnodup : keys.Nodup := hkeys.nodup_iff.mpr Std.ExtTreeMap.nodup_keys
  exact (hrun keys store hnodup hstart).done key e he List.not_mem_nil

end

/-! ## Before the comments -/

/-- No comment has been read yet. -/
def Unread (store : TypeStore) : Prop := ∀ slot e, store.entity? slot = some e → Bare e.shape

section

variable {store store' : TypeStore}

theorem unread_of_grows (hgrows : Grows store store') (h : Unread store) : Unread store' := by
  intro slot e he
  rcases hgrows.made he with hold | hmade
  · exact h slot e hold
  · exact bare_of_layout?_none (layout?_of_isMade hmade)

theorem unread_add (h : Unread store) {e : Entity} (he : Bare e.shape) :
    Unread (store.add e).2 := by
  intro slot e' he'
  rw [entity?_add] at he'
  split at he'
  · obtain rfl := Option.some.inj he'
    exact he
  · exact h slot e' he'

theorem unread_withBuiltins (pointerSize : UInt32) : Unread (withBuiltins pointerSize) := by
  intro slot e he
  rw [entity?_withBuiltins] at he
  exact bare_of_layout?_none (layout?_of_mem_entities (List.mem_of_getElem? he))

theorem unread_adds {record : Record} (h : Unread store) (hadds : Adds store record store') :
    Unread store' := by
  obtain ⟨shape, hbare, rfl⟩ := hadds
  exact unread_add (unread_of_grows (askAll_grows store _) h) hbare

theorem unread_addTypedef {record : Record} (h : Unread store)
    (hadd : addTypedef store record = .ok store') : Unread store' := by
  have hlast := unread_of_grows (askAll_grows store [record.dataTypeKey, record.key]) h
  unfold addTypedef at hadd
  simp only at hadd
  split at hadd
  · obtain rfl := Except.ok.inj hadd
    exact hlast
  · split at hadd
    · obtain rfl := Except.ok.inj hadd
      exact unread_add hlast (bare_of_layout?_none rfl)
    · obtain rfl := Except.ok.inj hadd
      exact hlast
    · cases hadd

theorem unread_addRecord {record : Record} (h : Unread store)
    (hadd : addRecord store record = .ok store') : Unread store' := by
  unfold addRecord at hadd
  split at hadd
  · rename_i hkind
    exact unread_adds h (addEnum_adds hkind hadd)
  · exact unread_addTypedef h hadd
  · rename_i hkind
    exact unread_adds h (addSignature_adds hkind hadd)
  · rename_i hkind
    exact unread_adds h (@addLayout_adds _ _ _ .struct hkind hadd)
  · rename_i hkind
    exact unread_adds h (@addLayout_adds _ _ _ .union hkind hadd)
  · obtain rfl := Except.ok.inj hadd
    exact h

/-- Declarations leave all comments unread. -/
theorem unread_addAll {pointerSize : UInt32} {doc : Export}
    (hadd : addAll (.withBuiltins pointerSize) doc = .ok store) : Unread store := by
  rw [addAll_eq] at hadd
  exact foldlM_preserves unread_addRecord (unread_withBuiltins pointerSize) hadd

end

end TypeStore

/-! ## After the load -/

/-- In a loaded program each member of a struct or union has no directives if it has
no comment, and otherwise those that its comment spells, in order; and each of their
references, however deep, leads to the type that its path names. It holds in whatever
order the loader visits keys. -/
theorem members_have_the_directives_of_their_comments {loader : Loader} {doc : Export}
    {trace : Option (List UInt8)} {program : Program} (h : loader.load doc trace = .ok program)
    {key : TypeKey} {e : Entity} (he : program.types.byKey? key = some e) :
    e.shape.Commented program.types := by
  obtain ⟨declared, symbols, read, entered, hstages⟩ := Loader.load_stages h
  obtain ⟨hi, -⟩ := Loader.attached_of_found hstages.declares hstages.found
    (loader.order.keys read.types)
  have hgrows := GlobalReading.ofExport_grows hstages.found
  have hindexed := hgrows.indexed (addAll_declaring hstages.declares).indexed
  have hunread := unread_of_grows hgrows (unread_addAll hstages.declares)
  have hresolves := resolve_resolves hi
  rw [hstages.types] at he ⊢
  rw [hresolves.byKey?_all hi (.refl _), Option.map_eq_some_iff] at he
  obtain ⟨old, hold, rfl⟩ := he
  have hattached : old.shape.Commented
      (read.types.attachDirectives (loader.order.keys read.types)) := by
    apply attachDirectives_commented hindexed _ (loader.order.perm read.types) hold
    intro key e he
    obtain ⟨slot, -, hslot⟩ := byKey?_eq_some.mp he
    exact hunread slot e hslot
  apply (hattached.mapRefs_resolveSlot hi).keeps
  intro path slot hpath
  rw [hresolves.places.atPath?, hpath]

def boxRecord : Record :=
  let named := Record.withAttribute (.withAttribute { kind := .layout } "NAME" "box") "SIZE" "8"
  (named.withChild (commentedMember "items" "0" "pointer" "@ptr(Lists/node *), see @len(count)"))
    |>.withChild (commentedMember "last" "4" "box *" "@as() @child(first, @as(Lists/node))")

/-- The box after the struct of the circle, whose comment is read first. -/
def boxes : Export := { records := [nodeRecord, boxRecord] }

theorem a_box_has_the_directives_of_its_comments : ∃ program e layout,
    Loader.load { order := .descending } boxes none = .ok program ∧
    program.types.byKey? (.root "box") = some e ∧ e.shape.layout? = some layout ∧
    (layout.members.map fun m => m.directives.map Directive.bare) =
      [[.pointsTo "Lists/node *" (), .lengthFrom "count"],
        [.child "first" (.readAs "Lists/node" ())]] ∧
    ∀ m ∈ layout.members, m.Commented program.types := by
  have hspelled : (((Loader.load { order := .descending } boxes none).toOption.bind
      fun program => program.types.byKey? (.root "box")).bind fun e => e.shape.layout?.map
        fun layout => layout.members.map fun m => m.directives.map Directive.bare) =
      some [[.pointsTo "Lists/node *" (), .lengthFrom "count"],
        [.child "first" (.readAs "Lists/node" ())]] := by decide +kernel
  cases h : Loader.load { order := .descending } boxes none with
  | error fault =>
    rw [h] at hspelled
    cases hspelled
  | ok program =>
    rw [h] at hspelled
    obtain ⟨e, he, hspelled⟩ := Option.bind_eq_some_iff.mp hspelled
    obtain ⟨layout, hlayout, hspelled⟩ := Option.map_eq_some_iff.mp hspelled
    have hmain := members_have_the_directives_of_their_comments h he layout hlayout
    exact ⟨program, e, layout, rfl, he, hlayout, hspelled, hmain⟩

end BinaryAtlas
