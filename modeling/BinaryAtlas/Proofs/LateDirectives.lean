-- The laws of directives at the end of a comment. Behind almost all texts a
-- directive is found as if it stood alone. There is one exception: where an open
-- directive awaits an argument, the late directive becomes that argument, and is
-- lost with the open one.
import BinaryAtlas.Proofs.CommentStretches

namespace BinaryAtlas.Directive

/-- The text ends where an open directive awaits an argument: behind its
parenthesis or one of its commas, and blanks. -/
def AwaitsArgument (text : List Char) : Prop :=
  ∃ (before : List Char) (o : Opening) (gap : Gap), text = before ++ (o.chars ++ gap.chars)

/-- The scanner stands before an argument. -/
def ScanPlace.awaits : ScanPlace → Bool
  | .beforeArgument => true
  | _ => false

namespace Scan

variable {Store Ref : Type} {intern : TypeKey → Store → Ref × Store}

/-! ## An at sign -/

/-- The directives that stay open at an at sign. -/
def kept (s : Scan Store Ref) : List (Opened Ref) := if s.place.awaits then s.opened else []

/-- An at sign begins a name everywhere, but only where an argument is awaited
are the open directives kept. -/
theorem step_at (s : Scan Store Ref) :
    s.step intern '@' = { s with place := .inName [], opened := s.kept } := by
  have hname : isNameChar '@' = false := rfl
  have hblank : Text.isBlank '@' = false := rfl
  have hend : isPathEnd '@' = true := rfl
  obtain ⟨place, opened, found, store⟩ := s
  cases place with
  | outside => rfl
  | inName letters =>
    simp [step, takeAfterName, restart, kept, ScanPlace.awaits, hname, hblank]
  | afterName name => simp [step, takeAfterName, restart, kept, ScanPlace.awaits, hblank]
  | beforeArgument => simp [step, kept, ScanPlace.awaits, hblank]
  | inPath letters =>
    cases opened <;>
      simp [step, takeAfterArgument, addArgument, restart, kept, ScanPlace.awaits, hend]
  | afterArgument => simp [step, takeAfterArgument, restart, kept, ScanPlace.awaits, hblank]

variable (intern)

/-- A blank finds nothing, and changes nothing of what is kept. -/
theorem step_blank {c : Char} (hc : Text.isBlank c = true) (s : Scan Store Ref) :
    (s.step intern c).found = s.found ∧ (s.step intern c).store = s.store ∧
      (s.step intern c).kept = s.kept := by
  have hname := isNameChar_of_isBlank hc
  have hend := isPathEnd_of_isBlank hc
  have hat : c ≠ '@' := by
    rintro rfl
    cases hc
  obtain ⟨place, opened, found, store⟩ := s
  cases place with
  | inName letters =>
    cases letters <;>
      simp [step, takeAfterName, restart, kept, ScanPlace.awaits, hname, hc, hat]
  | _ => simp [step, takeAfterName, restart, kept, ScanPlace.awaits, hend, hc, hat]

/-- A blank and a directive, whatever stands before them. -/
theorem foldl_late (d : ProperDirective) (s : Scan Store Ref) :
    (' ' :: d.chars).foldl (step intern) s =
      outcome intern d.written s.kept s.found s.store := by
  have hblank : Text.isBlank ' ' = true := rfl
  obtain ⟨hfound, hstore, hkept⟩ := step_blank intern hblank s
  rw [List.foldl_cons, ProperDirective.chars, List.foldl_cons, step_at,
    reads_of_wellFormed d.wellFormed, hfound, hstore, hkept]

/-! ## Texts that await an argument -/

/-- The scanner stands before an argument of an open directive. -/
def AtArgument (s : Scan Store Ref) : Prop := s.place = .beforeArgument ∧ s.opened ≠ []

theorem reads_argument (argument : ProperArgument) :
    ∀ inner, argument.written = .directive inner → Reads intern inner := by
  cases argument with
  | path path => exact nofun
  | directive d =>
    rintro inner ⟨⟩
    exact reads_of_wellFormed d.wellFormed

theorem atArgument_foldl_items {s : Scan Store Ref} (h : s.AtArgument) (items : List ProperItem) :
    ((items.flatMap fun item => item.chars ++ [',']).foldl (step intern) s).AtArgument := by
  induction items generalizing s with
  | nil => exact h
  | cons item items ih =>
    rw [List.flatMap_cons, List.foldl_append]
    apply ih
    obtain ⟨place, opened, found, store⟩ := s
    obtain ⟨rfl, hopened⟩ := h
    obtain ⟨inner, outer, rfl⟩ := List.exists_cons_of_ne_nil hopened
    obtain ⟨answer, -, hanswer⟩ := answer_readItem intern ([], store) item
    have hitem : item.chars ++ [','] = item.before.chars ++ (item.argument.written.chars ++
        (item.after.chars ++ [','])) := by
      simp [ProperItem.chars]
    rw [hitem, foldl_argument hanswer (reads_argument intern item.argument) item.before item.after
      (.inl rfl)]
    exact ⟨rfl, List.cons_ne_nil _ _⟩

theorem atArgument_foldl_opening (s : Scan Store Ref) (o : Opening) (gap : Gap) :
    ((o.chars ++ gap.chars).foldl (step intern) s).AtArgument := by
  have hsplit : o.chars = o.before.chars ++ '@' :: ((o.name.letters ++ (o.gap.chars ++ ['('])) ++
      o.items.flatMap fun item => item.chars ++ [',']) := by
    simp [Opening.chars]
  rw [hsplit, List.foldl_append, List.foldl_append]
  generalize o.before.chars.foldl (step intern) s = mid
  rw [List.foldl_cons, step_at, List.foldl_append, foldl_head]
  have hopen := atArgument_foldl_items intern
    (s := { place := .beforeArgument, opened := { name := o.name.letters } :: mid.kept,
            found := mid.found, store := mid.store })
    ⟨rfl, List.cons_ne_nil _ _⟩ o.items
  generalize (o.items.flatMap fun item => item.chars ++ [',']).foldl (step intern) _ = last at hopen
  obtain ⟨place, opened, found, store⟩ := last
  obtain ⟨rfl, hopened⟩ := hopen
  rw [foldl_gap gap (.inl rfl)]
  exact ⟨rfl, hopened⟩

/-- Open directives are kept at an at sign just behind a text that awaits an
argument. -/
theorem kept_foldl_ne_nil_iff (text : List Char) (store : Store) :
    (text.foldl (step intern) { store }).kept ≠ [] ↔ AwaitsArgument text := by
  constructor
  · intro h
    obtain ⟨⟨stretches, rest⟩, hchars, hscan⟩ := CommentReading.exists_reading text
    rw [hscan] at h
    cases rest with
    | inArgument inner outer path =>
      by_cases hall : path.chars.all Text.isBlank = true
      · refine ⟨stretches.flatMap Stretch.chars ++ Opening.chainChars outer, inner,
          ⟨path.chars, List.all_eq_true.mp hall⟩, ?_⟩
        simp [← hchars, CommentReading.chars, Unfinished.chars, Opening.chainChars]
      · have hplace : placeIn path.chars =
            .inPath (path.chars.dropWhile Text.isBlank).reverse := if_neg hall
        simp [CommentReading.scan, CommentReading.scanAt, Unfinished.place, kept, hplace,
          ScanPlace.awaits] at h
    | _ => exact absurd rfl h
  · rintro ⟨before, o, gap, rfl⟩
    rw [List.foldl_append]
    obtain ⟨hplace, hopened⟩ :=
      atArgument_foldl_opening intern (before.foldl (step intern) { store }) o gap
    rw [kept, hplace]
    exact hopened

end Scan

/-! ## Late directives -/

variable {Store Ref : Type}

/-- A well-formed directive behind a comment is found after those of the comment,
unless the comment ends where an argument is awaited; there it is lost. In both
cases the store is asked for its type. -/
theorem a_late_directive_is_found_unless_an_argument_is_awaited
    (intern : TypeKey → Store → Ref × Store) (comment : List Char) (d : ProperDirective)
    (store : Store) :
    let early := parse intern comment store
    let late := d.meaning.answer intern early.2
    (¬AwaitsArgument comment →
        parse intern (comment ++ ' ' :: d.chars) store = (early.1 ++ [late.1], late.2)) ∧
      (AwaitsArgument comment →
        parse intern (comment ++ ' ' :: d.chars) store = (early.1, late.2)) := by
  intro early late
  have hkept := Scan.kept_foldl_ne_nil_iff intern comment store
  have hparse : parse intern (comment ++ ' ' :: d.chars) store =
      let s := Scan.outcome intern d.written
        (comment.foldl (Scan.step intern) { store }).kept
        (comment.foldl (Scan.step intern) { store }).found early.2
      (s.found.reverse, s.store) := by
    rw [parse, List.foldl_append, Scan.foldl_late]
    rfl
  constructor
  · intro hnot
    rw [← hkept, not_not] at hnot
    rw [hparse, hnot]
    simp [Scan.outcome, d.meaning?_written, early, late, parse]
  · intro hawaits
    obtain ⟨inner, outer, hopened⟩ := List.exists_cons_of_ne_nil (hkept.mpr hawaits)
    rw [hparse, hopened]
    simp [Scan.outcome, d.meaning?_written, early, late, parse]

/-! ## A length behind two comments -/

def lateLength : ProperDirective :=
  ⟨lengthDirective, WrittenDirective.wellFormed_iff.mpr (by decide +kernel)⟩

theorem a_length_is_found_behind_an_open_path_and_lost_behind_a_parenthesis :
    ¬AwaitsArgument "@ptr(int) @as(foo".toList ∧
      parse numberKey ("@ptr(int) @as(foo".toList ++ ' ' :: lateLength.chars) [] =
        ([.pointsTo "int" 0, .lengthFrom "n"], [.root "int"]) ∧
      AwaitsArgument "@ptr(int) @note(".toList ∧
      parse numberKey ("@ptr(int) @note(".toList ++ ' ' :: lateLength.chars) [] =
        ([.pointsTo "int" 0], [.root "int"]) := by
  have hopen : ¬AwaitsArgument "@ptr(int) @as(foo".toList := by
    rw [← Scan.kept_foldl_ne_nil_iff numberKey _ [], ← List.isEmpty_eq_false_iff]
    decide +kernel
  have hawaits : AwaitsArgument "@ptr(int) @note(".toList := by
    rw [← Scan.kept_foldl_ne_nil_iff numberKey _ [], ← List.isEmpty_eq_false_iff]
    decide +kernel
  refine ⟨hopen, ?_, hawaits, ?_⟩
  · rw [(a_late_directive_is_found_unless_an_argument_is_awaited numberKey _ lateLength []).1
      hopen]
    decide +kernel
  · rw [(a_late_directive_is_found_unless_an_argument_is_awaited numberKey _ lateLength []).2
      hawaits]
    decide +kernel

/-- The length stands after a note whose parenthesis is open. -/
theorem a_length_behind_an_open_note_is_not_found :
    "@note(".toList ++ ' ' :: lateLength.chars = "@note( @len(n)".toList ∧
      lateLength.meaning = .lengthFrom "n" ∧
      ¬∃ early, (parse numberKey ("@note(".toList ++ ' ' :: lateLength.chars) []).1 =
        early ++ [.lengthFrom "n"] := by
  have hnone : (parse numberKey ("@note(".toList ++ ' ' :: lateLength.chars) []).1 = [] := by
    decide +kernel
  refine ⟨by decide +kernel, by decide +kernel, ?_⟩
  rintro ⟨early, hearly⟩
  rw [hnone] at hearly
  exact List.append_ne_nil_of_right_ne_nil early (List.cons_ne_nil _ _) hearly.symm

end BinaryAtlas.Directive
