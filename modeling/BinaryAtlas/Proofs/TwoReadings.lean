-- Two readings of one comment. Two stores give out references in ways of their
-- own, and a scanner for each goes through the same places; so the directives
-- that they find differ in their references only, and those stay related.
import BinaryAtlas.Directive.Scanner
import Mathlib.Data.List.Forall2

namespace BinaryAtlas.Directive

variable {Store Store' Ref Ref' : Type}

/-! ## Directives with other references -/

/-- Two directives that differ in their references only. What relates the references
may look at the path that both belong to. -/
inductive Alike (R : String → Ref → Ref' → Prop) : Directive Ref → Directive Ref' → Prop
  | pointsTo (path : String) {r : Ref} {r' : Ref'} :
      R path r r' → Alike R (.pointsTo path r) (.pointsTo path r')
  | readAs (path : String) {r : Ref} {r' : Ref'} :
      R path r r' → Alike R (.readAs path r) (.readAs path r')
  | lengthFrom (member : String) : Alike R (.lengthFrom member) (.lengthFrom member)
  | child (path : String) {d : Directive Ref} {d' : Directive Ref'} :
      Alike R d d' → Alike R (.child path d) (.child path d')

theorem Alike.imp {R S : String → Ref → Ref' → Prop} (hRS : ∀ path r r', R path r r' → S path r r')
    {d : Directive Ref} {d' : Directive Ref'} (h : Alike R d d') : Alike S d d' := by
  induction h with
  | pointsTo path hr => exact .pointsTo path (hRS _ _ _ hr)
  | readAs path hr => exact .readAs path (hRS _ _ _ hr)
  | lengthFrom member => exact .lengthFrom member
  | child path _ ih => exact .child path ih

inductive Argument.Alike (R : String → Ref → Ref' → Prop) : Argument Ref → Argument Ref' → Prop
  | path (text : List Char) : Alike R (.path text) (.path text)
  | directive {d : Directive Ref} {d' : Directive Ref'} :
      Directive.Alike R d d' → Alike R (.directive d) (.directive d')

theorem Argument.Alike.imp {R S : String → Ref → Ref' → Prop}
    (hRS : ∀ path r r', R path r r' → S path r r') {a : Argument Ref} {a' : Argument Ref'}
    (h : Argument.Alike R a a') : Argument.Alike S a a' := by
  cases h with
  | path text => exact .path text
  | directive hd => exact .directive (hd.imp hRS)

structure Opened.Alike (R : String → Ref → Ref' → Prop) (o : Opened Ref) (o' : Opened Ref') :
    Prop where
  name : o'.name = o.name
  arguments : List.Forall₂ (Argument.Alike R) o.arguments o'.arguments

theorem Opened.Alike.imp {R S : String → Ref → Ref' → Prop}
    (hRS : ∀ path r r', R path r r' → S path r r') {o : Opened Ref} {o' : Opened Ref'}
    (h : Opened.Alike R o o') : Opened.Alike S o o' :=
  ⟨h.name, h.arguments.imp fun _ _ ha => ha.imp hRS⟩

/-! ## Two stores side by side -/

/-- Two ways to give out references go together: a request for one key keeps the stores
together, the two answers are related if a path leads to the key, and references that were
related before stay so. -/
structure Together (intern : TypeKey → Store → Ref × Store)
    (intern' : TypeKey → Store' → Ref' × Store') (Same : Store → Store' → Prop)
    (Related : Store → Store' → String → Ref → Ref' → Prop) : Prop where
  same : ∀ {store store'} key, Same store store' → Same (intern key store).2 (intern' key store').2
  answer : ∀ {store store'} {path key}, Same store store' → TypeKey.parse? path = some key →
    Related (intern key.trimmed store).2 (intern' key.trimmed store').2 path
      (intern key.trimmed store).1 (intern' key.trimmed store').1
  keeps : ∀ {store store'} key {path r r'}, Same store store' → Related store store' path r r' →
    Related (intern key store).2 (intern' key store').2 path r r'

/-- What two scanners come to with a result: stores that are still together, and
results that differ in their references only. -/
structure SameResult (Same : Store → Store' → Prop)
    (Related : Store → Store' → String → Ref → Ref' → Prop) (store : Store) (store' : Store')
    (a : Option (Directive Ref) × Store) (a' : Option (Directive Ref') × Store') : Prop where
  same : Same a.2 a'.2
  keeps : ∀ path r r', Related store store' path r r' → Related a.2 a'.2 path r r'
  result : Option.Rel (Alike (Related a.2 a'.2)) a.1 a'.1

section

variable {intern : TypeKey → Store → Ref × Store} {intern' : TypeKey → Store' → Ref' × Store'}
  {Same : Store → Store' → Prop} {Related : Store → Store' → String → Ref → Ref' → Prop}

/-- A reference is asked for, and a directive of its path is made with it. -/
theorem Together.reference (h : Together intern intern' Same Related) {store : Store}
    {store' : Store'} (hsame : Same store store') (path : List Char)
    {make : Ref → Directive Ref} {make' : Ref' → Directive Ref'}
    (hmake : ∀ {R : String → Ref → Ref' → Prop} {r r'}, R (.ofList path) r r' →
      Alike R (make r) (make' r')) :
    SameResult Same Related store store'
      ((reference? intern path store).1.map make, (reference? intern path store).2)
      ((reference? intern' path store').1.map make', (reference? intern' path store').2) := by
  unfold reference?
  split
  · exact ⟨hsame, fun _ _ _ => id, .none⟩
  · rename_i key hkey
    exact ⟨h.same _ hsame, fun _ _ _ => h.keeps _ hsame, .some (hmake (h.answer hsame hkey))⟩

/-- The name and the forms of the arguments decide which directive is built, and
both are the same. -/
theorem Together.build (h : Together intern intern' Same Related) {store : Store}
    {store' : Store'} (hsame : Same store store') (name : List Char)
    {arguments : List (Argument Ref)} {arguments' : List (Argument Ref')}
    (harguments : List.Forall₂ (Argument.Alike (Related store store')) arguments arguments') :
    SameResult Same Related store store' (build intern name arguments store)
      (build intern' name arguments' store') := by
  have hnone : SameResult Same Related store store' (none, store) (none, store') :=
    ⟨hsame, fun _ _ _ => id, .none⟩
  cases hname : DirectiveName.ofLetters? name with
  | none => simpa only [Directive.build, hname] using hnone
  | some which =>
    obtain _ | ⟨ha, _ | ⟨hb, _ | ⟨hc, -⟩⟩⟩ := harguments
    · cases which <;> simpa only [Directive.build, hname] using hnone
    · cases ha with
      | directive hd => cases which <;> simpa only [Directive.build, hname] using hnone
      | path text =>
        cases which with
        | pointsTo =>
          simpa only [Directive.build, hname] using h.reference hsame text (.pointsTo _)
        | readAs => simpa only [Directive.build, hname] using h.reference hsame text (.readAs _)
        | child => simpa only [Directive.build, hname] using hnone
        | lengthFrom =>
          simp only [Directive.build, hname]
          split
          · exact hnone
          · exact { hnone with result := .some (.lengthFrom _) }
    · cases ha with
      | directive hd => cases which <;> simpa only [Directive.build, hname] using hnone
      | path text =>
        cases hb with
        | path text' => cases which <;> simpa only [Directive.build, hname] using hnone
        | directive hd =>
          cases which with
          | child =>
            simp only [Directive.build, hname]
            split
            · exact hnone
            · exact { hnone with result := .some (.child _ hd) }
          | _ => simpa only [Directive.build, hname] using hnone
    · cases ha <;> cases hb <;> cases which <;> simpa only [Directive.build, hname] using hnone

/-! ## Two scanners side by side -/

namespace Scan

/-- Two scanners at the same place, with stores that are together. -/
structure Alike (Same : Store → Store' → Prop)
    (Related : Store → Store' → String → Ref → Ref' → Prop) (s : Scan Store Ref)
    (s' : Scan Store' Ref') : Prop where
  same : Same s.store s'.store
  place : s'.place = s.place
  opened : List.Forall₂ (Opened.Alike (Related s.store s'.store)) s.opened s'.opened
  found : List.Forall₂ (Directive.Alike (Related s.store s'.store)) s.found s'.found

variable {s : Scan Store Ref} {s' : Scan Store' Ref'}

theorem Alike.moved (h : Alike Same Related s s') (place : ScanPlace) :
    Alike Same Related { s with place } { s' with place } := { h with place := rfl }

theorem Alike.restart (h : Alike Same Related s s') (c : Char) :
    Alike Same Related (s.restart c) (s'.restart c) :=
  { h with place := rfl, opened := .nil }

theorem Alike.addArgument (h : Alike Same Related s s') {a : Argument Ref} {a' : Argument Ref'}
    (ha : Argument.Alike (Related s.store s'.store) a a') :
    Alike Same Related (s.addArgument a) (s'.addArgument a') := by
  obtain ⟨place, opened, found, store⟩ := s
  obtain ⟨place', opened', found', store'⟩ := s'
  obtain ⟨hsame, hplace, hopened, hfound⟩ := h
  cases hopened with
  | nil => exact ⟨hsame, hplace, .nil, hfound⟩
  | cons hinner houter =>
    exact ⟨hsame, hplace, .cons ⟨hinner.name, .cons ha hinner.arguments⟩ houter, hfound⟩

theorem Alike.takeAfterName (h : Alike Same Related s s') (name : List Char) (c : Char) :
    Alike Same Related (s.takeAfterName name c) (s'.takeAfterName name c) := by
  unfold Scan.takeAfterName
  split
  · exact h.moved _
  · split
    · exact { h with place := rfl, opened := .cons ⟨rfl, .nil⟩ h.opened }
    · exact h.restart c

/-- What has been read so far stays related in later stores. -/
theorem Alike.later (h : Alike Same Related s s') {store : Store} {store' : Store'}
    (hsame : Same store store')
    (hkeeps : ∀ path r r', Related s.store s'.store path r r' → Related store store' path r r') :
    Alike Same Related { s with store } { s' with store := store' } where
  same := hsame
  place := h.place
  opened := h.opened.imp fun _ _ ho => ho.imp hkeeps
  found := h.found.imp fun _ _ hd => hd.imp hkeeps

theorem Alike.close (htogether : Together intern intern' Same Related)
    (h : Alike Same Related s s') : Alike Same Related (s.close intern) (s'.close intern') := by
  obtain ⟨place, opened, found, store⟩ := s
  obtain ⟨place', opened', found', store'⟩ := s'
  cases h.opened with
  | nil => exact h.moved .outside
  | @cons inner inner' outer outer' hinner _ =>
    have harguments := List.forall₂_reverse_iff.mpr hinner.arguments
    have hbuild := htogether.build h.same inner.name harguments
    rw [← hinner.name] at hbuild
    simp only [Scan.close, hinner.name] at hbuild ⊢
    generalize build intern inner.name inner.arguments.reverse store = built at hbuild ⊢
    generalize build intern' inner.name inner'.arguments.reverse store' = built' at hbuild ⊢
    obtain ⟨result, last⟩ := built
    obtain ⟨result', last'⟩ := built'
    have hnext := h.later hbuild.same hbuild.keeps
    cases hbuild.result with
    | none => exact { hnext with place := rfl, opened := .nil }
    | some hdirective =>
      have hfound := hnext.found.cons hdirective
      obtain ⟨-, hopened⟩ := List.forall₂_cons.mp hnext.opened
      cases hopened with
      | nil => exact ⟨hnext.same, rfl, .nil, hfound⟩
      | cons hfirst hothers =>
        have hclosed : Alike Same Related ⟨.afterArgument, _, found, last⟩
            ⟨.afterArgument, _, found', last'⟩ :=
          ⟨hnext.same, rfl, .cons hfirst hothers, hnext.found⟩
        exact hclosed.addArgument (.directive hdirective)

theorem Alike.takeAfterArgument (htogether : Together intern intern' Same Related)
    (h : Alike Same Related s s') (c : Char) :
    Alike Same Related (s.takeAfterArgument intern c) (s'.takeAfterArgument intern' c) := by
  unfold Scan.takeAfterArgument
  split
  · exact h.moved _
  · split
    · exact h.close htogether
    · exact h.restart c

theorem Alike.step (htogether : Together intern intern' Same Related)
    (h : Alike Same Related s s') (c : Char) :
    Alike Same Related (s.step intern c) (s'.step intern' c) := by
  have hargument (text : List Char) :
      Alike Same Related ((s.addArgument (.path text)).takeAfterArgument intern c)
        ((s'.addArgument (.path text)).takeAfterArgument intern' c) :=
    (h.addArgument (.path text)).takeAfterArgument htogether c
  unfold Scan.step
  rw [h.place]
  split
  · exact h.restart c
  · split
    · exact h.moved _
    · split
      · exact h.restart c
      · exact h.takeAfterName _ c
  · exact h.takeAfterName _ c
  · split
    · exact h
    · split
      · exact h.moved _
      · split
        · exact hargument _
        · exact h.moved _
  · split
    · exact hargument _
    · exact h.moved _
  · split
    · exact h
    · exact h.takeAfterArgument htogether c

end Scan

/-- Two readings of one comment give directives that differ in their references only. -/
theorem Together.parse (h : Together intern intern' Same Related) {store : Store}
    {store' : Store'} (hsame : Same store store') (comment : List Char) :
    Same (parse intern comment store).2 (parse intern' comment store').2 ∧
      List.Forall₂ (Alike (Related (parse intern comment store).2 (parse intern' comment store').2))
        (parse intern comment store).1 (parse intern' comment store').1 := by
  have hfold : ∀ (s : Scan Store Ref) (s' : Scan Store' Ref'), Scan.Alike Same Related s s' →
      Scan.Alike Same Related (comment.foldl (Scan.step intern) s)
        (comment.foldl (Scan.step intern') s') := by
    induction comment with
    | nil => exact fun s s' hs => hs
    | cons c comment ih => exact fun s s' hs => ih _ _ (hs.step h c)
  have hend := hfold { store } { store := store' } ⟨hsame, rfl, .nil, .nil⟩
  exact ⟨hend.same, List.forall₂_reverse_iff.mpr hend.found⟩

end

end BinaryAtlas.Directive
