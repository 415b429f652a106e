-- The laws of comments. A comment does no more to a store than ask it for
-- types, and the members that it stands with get directives and nothing else;
-- so a type is still what its record describes.
import BinaryAtlas.Program.Comments
import BinaryAtlas.Proofs.Declared
import BinaryAtlas.Proofs.Resolution

namespace BinaryAtlas

/-! ## Requests of a comment -/

namespace Directive

section

variable {Store Ref : Type} {intern : TypeKey → Store → Ref × Store} {P : Store → Prop}

theorem reference?_keeps (hintern : ∀ key store, P store → P (intern key store).2)
    (path : List Char) {store : Store} (h : P store) : P (reference? intern path store).2 := by
  unfold reference?
  split
  · exact h
  · exact hintern _ _ h

theorem build_keeps (hintern : ∀ key store, P store → P (intern key store).2)
    (name : List Char) (arguments : List (Argument Ref)) {store : Store} (h : P store) :
    P (build intern name arguments store).2 := by
  unfold build
  split
  · exact reference?_keeps hintern _ h
  · exact reference?_keeps hintern _ h
  · exact h
  · exact h
  · exact h

namespace Scan

@[simp]
theorem store_addArgument (s : Scan Store Ref) (argument : Argument Ref) :
    (s.addArgument argument).store = s.store := by
  unfold addArgument
  split <;> rfl

theorem close_keeps (hintern : ∀ key store, P store → P (intern key store).2)
    {s : Scan Store Ref} (h : P s.store) : P (s.close intern).store := by
  unfold close
  split
  · exact h
  · rename_i inner outer _
    have hbuild := build_keeps hintern inner.name inner.arguments.reverse h
    split
    · rename_i hb
      rw [hb] at hbuild
      exact hbuild
    · rename_i hb
      rw [hb] at hbuild
      split
      · exact hbuild
      · rw [store_addArgument]
        exact hbuild

theorem store_takeAfterName (s : Scan Store Ref) (name : List Char) (c : Char) :
    (s.takeAfterName name c).store = s.store := by
  unfold takeAfterName
  split
  · rfl
  · split <;> rfl

theorem takeAfterArgument_keeps (hintern : ∀ key store, P store → P (intern key store).2)
    {s : Scan Store Ref} (h : P s.store) (c : Char) :
    P (s.takeAfterArgument intern c).store := by
  unfold takeAfterArgument
  split
  · exact h
  · split
    · exact close_keeps hintern h
    · exact h

/-- A character asks for types only where it ends a directive. -/
theorem step_keeps (hintern : ∀ key store, P store → P (intern key store).2)
    {s : Scan Store Ref} (h : P s.store) (c : Char) : P (s.step intern c).store := by
  have hargument (argument : Argument Ref) :
      P ((s.addArgument argument).takeAfterArgument intern c).store := by
    apply takeAfterArgument_keeps hintern
    rw [store_addArgument]
    exact h
  unfold step
  split
  · exact h
  · split
    · exact h
    · split
      · exact h
      · rw [store_takeAfterName]
        exact h
  · rw [store_takeAfterName]
    exact h
  · split
    · exact h
    · split
      · exact h
      · split
        · exact hargument _
        · exact h
  · split
    · exact hargument _
    · exact h
  · split
    · exact h
    · exact takeAfterArgument_keeps hintern h c

end Scan

/-- What a request keeps, a whole comment keeps. -/
theorem parse_keeps (hintern : ∀ key store, P store → P (intern key store).2)
    (comment : List Char) {store : Store} (h : P store) : P (parse intern comment store).2 := by
  have hfold : ∀ s : Scan Store Ref, P s.store →
      P (comment.foldl (Scan.step intern) s).store := by
    induction comment with
    | nil => exact fun s hs => hs
    | cons c comment ih => exact fun s hs => ih _ (Scan.step_keeps hintern hs c)
  exact hfold { store } h

end

end Directive

/-! ## Directives of members -/

namespace TypeStore

open Declaration

theorem readComment_grows (store : TypeStore) (comment : String) :
    Grows store (store.readComment comment).2 :=
  Directive.parse_keeps (fun key _ h => grows_trans h (get_gets _ key).grows) _ (grows_refl store)

theorem attachMember_ok (store : TypeStore) (m : Member) :
    Grows store (store.attachMember m).2 ∧ (store.attachMember m).1.bare = m.bare := by
  unfold attachMember
  split
  · exact ⟨grows_refl store, rfl⟩
  · rename_i comment _
    exact ⟨readComment_grows store comment, rfl⟩

theorem attachMembers_ok (store : TypeStore) (members : List Member) :
    Grows store (store.attachMembers members).2 ∧
      (store.attachMembers members).1.map Member.bare = members.map Member.bare := by
  induction members generalizing store with
  | nil => exact ⟨grows_refl store, rfl⟩
  | cons m members ih =>
    obtain ⟨hfirst, hbare⟩ := store.attachMember_ok m
    obtain ⟨hrest, hall⟩ := ih (store.attachMember m).2
    refine ⟨grows_trans hfirst hrest, ?_⟩
    simp only [attachMembers, List.map_cons, hbare, hall]

theorem isPlaceholder_withLayout (shape : Shape) (layout : Layout) :
    (shape.withLayout layout).isPlaceholder = shape.isPlaceholder := by
  cases shape <;> rfl

/-- Members that differ in directives only are as good as the old ones. -/
theorem declares_withLayout {store : TypeStore} {records : List Record} {slot : Slot} {e : Entity}
    {layout : Layout} {members : List Member} (h : Declares store records)
    (he : store.entity? slot = some e) (hlayout : e.shape.layout? = some layout)
    (hmembers : members.map Member.bare = layout.members.map Member.bare) :
    Declares (store.setShape slot (e.shape.withLayout { layout with members })) records := by
  have hplaces := samePlaces_setShape he (isPlaceholder_withLayout e.shape { layout with members })
  intro key record hlast
  obtain ⟨e', he', hdescribes⟩ := h key record hlast
  obtain ⟨slot', hkey, hslot⟩ := byKey?_eq_some.mp he'
  have hkeeps : Describes (store.setShape slot (e.shape.withLayout { layout with members })) record
      e'.shape := by
    apply hdescribes.keeps
    intro r key hr
    rw [hplaces.keyAt?, hr]
  rw [byKey?, lookup_setShape, hkey, Option.bind_some, entity?_setShape, hslot]
  split
  · rename_i hsame
    subst hsame
    obtain rfl := Option.some.inj (he.symm.trans hslot)
    exact ⟨_, rfl, hkeeps.withLayout hlayout hmembers⟩
  · exact ⟨e', rfl, hkeeps⟩

theorem attachKey_declares {store : TypeStore} {records : List Record} (key : TypeKey)
    (h : Indexed store ∧ Declares store records) :
    Indexed (store.attachKey key) ∧ Declares (store.attachKey key) records := by
  unfold attachKey
  split
  · exact h
  · rename_i slot _
    split
    · exact h
    · rename_i e he
      split
      · exact h
      · rename_i layout hlayout
        obtain ⟨hgrows, hmembers⟩ := store.attachMembers_ok layout.members
        have hdeclares := declares_of_grows hgrows h.2
        have he' := hgrows.extends_.slots he
        exact ⟨indexed_setShape (hgrows.indexed h.1) slot _,
          declares_withLayout hdeclares he' hlayout hmembers⟩

theorem attachDirectives_declares {store : TypeStore} {records : List Record}
    (keys : List TypeKey) (h : Indexed store ∧ Declares store records) :
    Indexed (store.attachDirectives keys) ∧ Declares (store.attachDirectives keys) records := by
  induction keys generalizing store with
  | nil => exact h
  | cons key keys ih => exact ih (attachKey_declares key h)

end TypeStore

end BinaryAtlas
