-- The laws of the scanner. A directive that is well formed is found, wherever
-- it stands and however deep; one that is rejected is passed over to its end,
-- and the scanner goes on behind it. So a comment gives the directives that it
-- spells.
import BinaryAtlas.Proofs.DirectiveText
import Mathlib.Data.List.DropRight
import Mathlib.Data.List.TakeWhile

namespace BinaryAtlas

/-! ## Blanks -/

theorem isNameChar_of_isBlank {c : Char} (h : Text.isBlank c = true) : isNameChar c = false := by
  simp only [Text.isBlank, Bool.or_eq_true, Bool.and_eq_true, decide_eq_true_eq, beq_iff_eq,
    Char.toNat] at h
  delta isNameChar Char.isAlphanum Char.isAlpha Char.isUpper Char.isLower Char.isDigit
  simp only [Bool.or_eq_false_iff, Bool.and_eq_false_iff, decide_eq_false_iff_not,
    beq_eq_false_iff_ne, ne_eq, Char.ext_iff, ← UInt32.toNat_inj, UInt32.le_iff_toNat_le,
    Char.reduceVal, UInt32.reduceToNat]
  omega

theorem isPathEnd_of_isBlank {c : Char} (h : Text.isBlank c = true) : isPathEnd c = false := by
  cases hend : isPathEnd c with
  | false => rfl
  | true =>
    simp only [isPathEnd, Bool.or_eq_true, beq_iff_eq] at hend
    obtain ((rfl | rfl) | rfl) | rfl := hend <;> simp [Text.isBlank] at h

namespace Text

theorem trim_blanks_append {before cs : List Char} (h : ∀ c ∈ before, isBlank c = true) :
    trim (before ++ cs) = trim cs := by
  rw [trim, List.dropWhile_append, List.dropWhile_eq_nil_iff.mpr h, List.isEmpty_nil, if_pos rfl,
    trim]

theorem trim_append_blanks {cs after : List Char} (h : ∀ c ∈ after, isBlank c = true) :
    trim (cs ++ after) = trim cs := by
  rw [trim, List.dropWhile_append]
  split
  · rename_i hempty
    rw [List.dropWhile_eq_nil_iff.mpr h, trim, List.isEmpty_iff.mp hempty]
  · have hreverse : ∀ c ∈ after.reverse, isBlank c = true := fun c hc =>
      h c (List.mem_reverse.mp hc)
    rw [dropTrailing, List.reverse_append, List.dropWhile_append,
      List.dropWhile_eq_nil_iff.mpr hreverse, List.isEmpty_nil, if_pos rfl, trim, dropTrailing]

/-- Blanks at the start are dropped once. -/
theorem trim_dropWhile (cs : List Char) : trim (cs.dropWhile isBlank) = trim cs := by
  rw [trim, List.dropWhile_idempotent, trim]

end Text

namespace Directive

variable {Store Ref : Type} {intern : TypeKey → Store → Ref × Store}
  {opened outer : List (Opened Ref)} {inner : Opened Ref} {found : List (Directive Ref)}
  {store : Store}

namespace Scan

/-! ## Names -/

theorem foldl_name {letters : List Char} (h : ∀ c ∈ letters, isNameChar c = true)
    (before : List Char) :
    letters.foldl (step intern) { place := .inName before, opened, found, store } =
      { place := .inName (letters.reverse ++ before), opened, found, store } := by
  induction letters generalizing before with
  | nil => rfl
  | cons c letters ih =>
    have hstep : step intern { place := .inName before, opened, found, store } c =
        { place := .inName (c :: before), opened, found, store } := by
      simp [step, h c List.mem_cons_self]
    rw [List.foldl_cons, hstep, ih fun c' hc' => h c' (List.mem_cons_of_mem c hc')]
    simp

/-- The parenthesis after a name opens a directive, with a gap before it or
none. -/
theorem foldl_head (name : WrittenName) (gap : Gap) :
    (name.letters ++ (gap.chars ++ ['('])).foldl (step intern)
        { place := .inName [], opened, found, store } =
      { place := .beforeArgument, opened := { name := name.letters } :: opened, found, store } := by
  have hname : name.letters.reverse.isEmpty = false := by
    simpa using name.nonempty
  have hgap (cs : List Char) (h : ∀ c ∈ cs, Text.isBlank c = true) :
      cs.foldl (step intern) { place := .afterName name.letters, opened, found, store } =
        { place := .afterName name.letters, opened, found, store } := by
    induction cs with
    | nil => rfl
    | cons c cs ih =>
      have hstep : step intern { place := .afterName name.letters, opened, found, store } c =
          { place := .afterName name.letters, opened, found, store } := by
        simp [step, takeAfterName, h c List.mem_cons_self]
      rw [List.foldl_cons, hstep, ih fun c' hc' => h c' (List.mem_cons_of_mem c hc')]
  rw [List.foldl_append, foldl_name name.plain, List.append_nil]
  cases hchars : gap.chars with
  | nil =>
    have hopen : Text.isBlank '(' = false := rfl
    have hplain : isNameChar '(' = false := rfl
    simp [step, takeAfterName, hopen, hplain, name.nonempty]
  | cons c cs =>
    have hblank : ∀ c' ∈ c :: cs, Text.isBlank c' = true := hchars ▸ gap.blank
    have hc := hblank c List.mem_cons_self
    have hfirst : step intern { place := .inName name.letters.reverse, opened, found, store } c =
        { place := .afterName name.letters, opened, found, store } := by
      simp [step, takeAfterName, hc, isNameChar_of_isBlank hc, name.nonempty]
    have hopen : Text.isBlank '(' = false := rfl
    rw [List.cons_append, List.foldl_cons, hfirst, List.foldl_append,
      hgap cs fun c' hc' => hblank c' (List.mem_cons_of_mem c hc')]
    simp [step, takeAfterName, hopen]

/-! ## Arguments -/

/-- Blanks before and after an argument change nothing. -/
theorem foldl_gap (gap : Gap) {place : ScanPlace}
    (hplace : place = .beforeArgument ∨ place = .afterArgument) :
    gap.chars.foldl (step intern) { place, opened, found, store } =
      { place, opened, found, store } := by
  obtain ⟨cs, h⟩ := gap
  induction cs with
  | nil => rfl
  | cons c cs ih =>
    have hstep : step intern { place, opened, found, store } c =
        { place, opened, found, store } := by
      have hc := h c List.mem_cons_self
      rcases hplace with rfl | rfl <;> simp [step, hc]
    rw [List.foldl_cons, hstep]
    exact ih fun c' hc' => h c' (List.mem_cons_of_mem c hc')

/-- Where the scanner stands after text that ends no path. -/
def placeIn (text : List Char) : ScanPlace :=
  if text.all Text.isBlank then .beforeArgument else .inPath (text.dropWhile Text.isBlank).reverse

theorem foldl_inPath {text : List Char} (h : ∀ c ∈ text, isPathEnd c = false)
    (before : List Char) :
    text.foldl (step intern) { place := .inPath before, opened, found, store } =
      { place := .inPath (text.reverse ++ before), opened, found, store } := by
  induction text generalizing before with
  | nil => rfl
  | cons c text ih =>
    have hstep : step intern { place := .inPath before, opened, found, store } c =
        { place := .inPath (c :: before), opened, found, store } := by
      simp [step, h c List.mem_cons_self]
    rw [List.foldl_cons, hstep, ih fun c' hc' => h c' (List.mem_cons_of_mem c hc')]
    simp

theorem foldl_path {text : List Char} (h : ∀ c ∈ text, isPathEnd c = false) :
    text.foldl (step intern) { place := .beforeArgument, opened, found, store } =
      { place := placeIn text, opened, found, store } := by
  induction text with
  | nil => rfl
  | cons c text ih =>
    have hrest : ∀ c' ∈ text, isPathEnd c' = false :=
      fun c' hc' => h c' (List.mem_cons_of_mem c hc')
    by_cases hc : Text.isBlank c = true
    · have hstep : step intern { place := .beforeArgument, opened, found, store } c =
          { place := .beforeArgument, opened, found, store } := by
        simp [step, hc]
      rw [List.foldl_cons, hstep, ih hrest]
      simp [placeIn, hc]
    · have hend := h c List.mem_cons_self
      have hat : c ≠ '@' := by
        rintro rfl
        cases hend
      have hstep : step intern { place := .beforeArgument, opened, found, store } c =
          { place := .inPath [c], opened, found, store } := by
        simp [step, hc, hat, hend]
      rw [List.foldl_cons, hstep, foldl_inPath hrest]
      simp [placeIn, hc]

/-- The end of a path adds it to the arguments, without the blanks around it. -/
theorem step_pathEnd {c : Char} (hc : c = ',' ∨ c = ')') (text : List Char) :
    step intern { place := placeIn text, opened := inner :: outer, found, store } c =
      takeAfterArgument intern
        { place := .afterArgument
          opened := { inner with arguments := .path (Text.trim text) :: inner.arguments } :: outer
          found
          store } c := by
  have hend : isPathEnd c = true := by rcases hc with rfl | rfl <;> rfl
  have hblank : Text.isBlank c = false := by rcases hc with rfl | rfl <;> rfl
  have hat : c ≠ '@' := by rcases hc with rfl | rfl <;> decide
  unfold placeIn
  split
  · rename_i hall
    have hempty : Text.trim text = [] := by
      rw [Text.trim, List.dropWhile_eq_nil_iff.mpr (List.all_eq_true.mp hall)]
      rfl
    rw [hempty]
    rcases hc with rfl | rfl <;>
      simp [step, hblank, hat, hend, addArgument, takeAfterArgument, close]
  · rw [← Text.trim_dropWhile text]
    rcases hc with rfl | rfl <;> simp [step, hend, addArgument, takeAfterArgument, close]

end Scan

/-! ## Answers -/

/-- What the store answers to one argument: to a path the path itself, and to a
directive the directive that it means. -/
inductive Answer (intern : TypeKey → Store → Ref × Store) :
    WrittenArgument → Store → Argument Ref → Store → Prop
  | path (path : WrittenPath) (store : Store) :
      Answer intern (.path path) store (.path path.trimmed) store
  | directive {written : WrittenDirective} {meaning : Directive TypeKey}
      (h : written.meaning? = some meaning) (store : Store) :
      Answer intern (.directive written) store
        (.directive (meaning.answer intern store).1) (meaning.answer intern store).2

/-- What the store answers to arguments, one after the other. -/
inductive Answers (intern : TypeKey → Store → Ref × Store) :
    List WrittenArgument → Store → List (Argument Ref) → Store → Prop
  | nil (store : Store) : Answers intern [] store [] store
  | cons {written : WrittenArgument} {others : List WrittenArgument} {store mid store' : Store}
      {argument : Argument Ref} {arguments : List (Argument Ref)}
      (h : Answer intern written store argument mid)
      (hothers : Answers intern others mid arguments store') :
      Answers intern (written :: others) store (argument :: arguments) store'

theorem exists_answers {arguments : List WrittenArgument}
    (h : ∀ inner, .directive inner ∈ arguments → inner.WellFormed) (store : Store) :
    ∃ answers store', Answers intern arguments store answers store' := by
  induction arguments generalizing store with
  | nil => exact ⟨_, _, .nil store⟩
  | cons written others ih =>
    have hothers := ih fun inner hi => h inner (List.mem_cons_of_mem _ hi)
    cases written with
    | path path =>
      obtain ⟨answers, store', hanswers⟩ := hothers store
      exact ⟨_, _, .cons (.path path store) hanswers⟩
    | directive inner =>
      have hwell := WrittenDirective.wellFormed_iff.mp (h inner List.mem_cons_self)
      obtain ⟨meaning, hmeaning⟩ := Option.isSome_iff_exists.mp hwell
      obtain ⟨answers, store', hanswers⟩ := hothers _
      exact ⟨_, _, .cons (.directive hmeaning store) hanswers⟩

/-- The store is asked once for the type that the directive names. -/
theorem answer_snd (meaning : Directive TypeKey) (store : Store) :
    (meaning.answer intern store).2 =
      meaning.target?.toList.foldl (fun store key => (intern key store).2) store := by
  induction meaning with
  | pointsTo path key => rfl
  | readAs path key => rfl
  | lengthFrom member => rfl
  | child path inner ih => exact ih

/-- The arguments ask for the types that the directives among them name. -/
theorem Answers.store_eq {arguments : List WrittenArgument} {answers : List (Argument Ref)}
    {store' : Store} (h : Answers intern arguments store answers store') :
    store' =
      (arguments.filterMap WrittenArgument.key?).foldl (fun store key => (intern key store).2)
        store := by
  induction h with
  | nil => rfl
  | cons hone _ ih =>
    cases hone with
    | path => exact ih
    | @directive _ meaning hmeaning =>
      rw [ih, answer_snd, List.filterMap_cons]
      cases htarget : meaning.target? with
      | none => simp [WrittenArgument.key?, hmeaning, htarget]
      | some key => simp [WrittenArgument.key?, hmeaning, htarget]

theorem reference?_trimmed (path : WrittenPath) (store : Store) :
    reference? intern path.trimmed store =
      match path.key? with
      | some key => (some (intern key store).1, (intern key store).2)
      | none => (none, store) := by
  unfold reference? WrittenPath.key?
  cases TypeKey.parse? (.ofList path.trimmed) <;> rfl

/-- The arguments fit the name just when the directive means something. -/
theorem build_answers {written : WrittenDirective} {answers : List (Argument Ref)}
    {store' : Store} (h : Answers intern written.arguments.toList store answers store') :
    build intern written.name.letters answers store' =
      match written.meaning? with
      | some meaning => (some (meaning.answer intern store).1, (meaning.answer intern store).2)
      | none => (none, store') := by
  obtain ⟨name, gap, arguments⟩ := written
  simp only [WrittenDirective.arguments] at h
  unfold WrittenDirective.name
  cases arguments with
  | last before argument after =>
    cases h with | cons hone hnil
    cases hnil
    cases hone with
    | path path =>
      rcases hkind : DirectiveName.ofLetters? name.letters with _ | _ | _ | _ | _
      · simp [build, WrittenDirective.meaning?, hkind]
      · simp only [build, WrittenDirective.meaning?, hkind, reference?_trimmed]
        cases path.key? <;> rfl
      · simp only [build, WrittenDirective.meaning?, hkind, reference?_trimmed]
        cases path.key? <;> rfl
      · simp only [build, WrittenDirective.meaning?, hkind]
        cases path.trimmed <;> rfl
      · simp [build, WrittenDirective.meaning?, hkind]
    | directive hmeaning => simp [build, WrittenDirective.meaning?]
  | more before argument after others =>
    cases h with | cons hone hothers
    cases others with
    | last before' second after' =>
      cases hothers with | cons htwo hnil
      cases hnil
      cases hone with
      | path path =>
        cases htwo with
        | path second => simp [build, WrittenDirective.meaning?]
        | directive hmeaning =>
          simp only [build, WrittenDirective.meaning?, hmeaning]
          rcases DirectiveName.ofLetters? name.letters with _ | _ | _ | _ | _
          · rfl
          · rfl
          · rfl
          · rfl
          · cases path.trimmed <;> rfl
      | directive hmeaning => cases htwo <;> simp [build, WrittenDirective.meaning?]
    | more before' second after' rest =>
      -- No name takes three arguments.
      cases hothers with | cons htwo hrest
      cases rest <;> cases hrest <;> simp [build, WrittenDirective.meaning?]

/-! ## Directives -/

namespace Scan

/-- The scanner at the end of a directive. What the directive means stays, among
the arguments of the one around it or among those found; if it means nothing,
all that is open around it goes with it. -/
def outcome (intern : TypeKey → Store → Ref × Store) (written : WrittenDirective)
    (opened : List (Opened Ref)) (found : List (Directive Ref)) (store : Store) :
    Scan Store Ref :=
  match written.meaning? with
  | some meaning =>
    let answer := meaning.answer intern store
    match opened with
    | [] => { place := .outside, found := answer.1 :: found, store := answer.2 }
    | inner :: outer =>
      { place := .afterArgument
        opened := { inner with arguments := .directive answer.1 :: inner.arguments } :: outer
        found
        store := answer.2 }
  | none =>
    { place := .outside
      found
      store := written.arguments.keys.foldl (fun store key => (intern key store).2) store }

/-- The scanner reads the directive to its end, whatever stands before it. -/
def Reads (intern : TypeKey → Store → Ref × Store) (written : WrittenDirective) : Prop :=
  ∀ opened found store,
    written.body.foldl (step intern) { place := .inName [], opened, found, store } =
      outcome intern written opened found store

theorem outcome_of_meaning {written : WrittenDirective} {meaning : Directive TypeKey}
    (h : written.meaning? = some meaning) :
    outcome intern written (inner :: outer) found store =
      { place := .afterArgument
        opened :=
          { inner with
            arguments := .directive (meaning.answer intern store).1 :: inner.arguments } :: outer
        found
        store := (meaning.answer intern store).2 } := by
  rw [outcome, h]

/-- An argument between two gaps, with the comma or the parenthesis behind it. -/
theorem foldl_argument {argument : WrittenArgument} {answer : Argument Ref} {store' : Store}
    (h : Answer intern argument store answer store')
    (hreads : ∀ inner, argument = .directive inner → Reads intern inner)
    (before after : Gap) {c : Char} (hc : c = ',' ∨ c = ')') :
    (before.chars ++ (argument.chars ++ (after.chars ++ [c]))).foldl (step intern)
        { place := .beforeArgument, opened := inner :: outer, found, store } =
      takeAfterArgument intern
        { place := .afterArgument
          opened := { inner with arguments := answer :: inner.arguments } :: outer
          found
          store := store' } c := by
  cases h with
  | path path =>
    have hplain : ∀ c ∈ before.chars ++ (path.chars ++ after.chars), isPathEnd c = false := by
      intro c hmem
      rcases List.mem_append.mp hmem with hb | hmem
      · exact isPathEnd_of_isBlank (before.blank c hb)
      · rcases List.mem_append.mp hmem with hp | ha
        · exact path.plain c hp
        · exact isPathEnd_of_isBlank (after.blank c ha)
    rw [WrittenArgument.chars, ← List.append_assoc path.chars, ← List.append_assoc,
      List.foldl_append, foldl_path hplain, List.foldl_cons, List.foldl_nil, step_pathEnd hc,
      Text.trim_blanks_append before.blank, Text.trim_append_blanks after.blank]
    rfl
  | @directive written meaning hmeaning =>
    have hat :
        step intern { place := .beforeArgument, opened := inner :: outer, found, store } '@' =
          { place := .inName [], opened := inner :: outer, found, store } := rfl
    have hblank : Text.isBlank c = false := by rcases hc with rfl | rfl <;> rfl
    rw [List.foldl_append, foldl_gap before (.inl rfl), WrittenArgument.chars, List.cons_append,
      List.foldl_cons, hat, List.foldl_append, hreads written rfl, outcome_of_meaning hmeaning,
      List.foldl_append, foldl_gap after (.inr rfl)]
    simp [step, hblank]

/-- The arguments up to the closing parenthesis. -/
theorem foldl_arguments (arguments : WrittenArguments) {answers : List (Argument Ref)}
    {store store' : Store} {inner : Opened Ref}
    (h : Answers intern arguments.toList store answers store')
    (hreads : ∀ inner, .directive inner ∈ arguments.toList → Reads intern inner) :
    arguments.chars.foldl (step intern)
        { place := .beforeArgument, opened := inner :: outer, found, store } =
      close intern
        { place := .afterArgument
          opened := { inner with arguments := answers.reverse ++ inner.arguments } :: outer
          found
          store := store' } := by
  match arguments with
  | .last before argument after =>
    cases h with | cons hone hnil
    cases hnil
    have hreadsOne : ∀ inner, argument = .directive inner → Reads intern inner :=
      fun inner hi => hreads inner (by simp [WrittenArguments.toList, hi])
    rw [WrittenArguments.chars, foldl_argument hone hreadsOne before after (.inr rfl)]
    rfl
  | .more before argument after others =>
    cases h with | cons hone hothers
    have hcomma : before.chars ++ (argument.chars ++ (after.chars ++ ',' :: others.chars)) =
        before.chars ++ (argument.chars ++ (after.chars ++ [','])) ++ others.chars := by simp
    have hreadsOne : ∀ inner, argument = .directive inner → Reads intern inner :=
      fun inner hi => hreads inner (by simp [WrittenArguments.toList, hi])
    rw [WrittenArguments.chars, hcomma, List.foldl_append,
      foldl_argument hone hreadsOne before after (.inl rfl)]
    have hstep (s : Scan Store Ref) :
        takeAfterArgument intern s ',' = { s with place := .beforeArgument } := rfl
    rw [hstep, foldl_arguments others hothers
      fun inner hi => hreads inner (by simp [WrittenArguments.toList, hi])]
    simp

/-- A directive is read to its end if all directives among its arguments mean
something and are read to their ends. -/
theorem reads_of_inner {written : WrittenDirective}
    (hwell : ∀ inner, .directive inner ∈ written.arguments.toList → inner.WellFormed)
    (hreads : ∀ inner, .directive inner ∈ written.arguments.toList → Reads intern inner) :
    Reads intern written := by
  intro opened found store
  obtain ⟨answers, store', hanswers⟩ :
      ∃ answers store', Answers intern written.arguments.toList store answers store' :=
    exists_answers hwell store
  have hbuild := build_answers hanswers
  have hstore := hanswers.store_eq
  obtain ⟨name, gap, arguments⟩ := written
  have hsplit : name.letters ++ (gap.chars ++ '(' :: arguments.chars) =
      name.letters ++ (gap.chars ++ ['(']) ++ arguments.chars := by simp
  rw [WrittenDirective.body, hsplit, List.foldl_append, foldl_head,
    foldl_arguments arguments hanswers hreads, List.append_nil]
  simp only [close, List.reverse_reverse]
  rw [WrittenDirective.name] at hbuild
  rw [hbuild, outcome]
  cases WrittenDirective.meaning? (.mk name gap arguments) with
  | some meaning =>
    cases opened with
    | nil => rfl
    | cons inner outer => rfl
  | none =>
    rw [hstore]
    rfl

theorem reads_of_wellFormed {written : WrittenDirective} (h : written.WellFormed) :
    Reads intern written := by
  induction h with
  | leaf hname hkind hpath =>
    apply reads_of_inner <;> simp [WrittenDirective.arguments, WrittenArguments.toList]
  | child hname hpath hinner ih =>
    apply reads_of_inner
    · simpa [WrittenDirective.arguments, WrittenArguments.toList] using hinner
    · simpa [WrittenDirective.arguments, WrittenArguments.toList] using ih

theorem reads_of_rejected {written : WrittenDirective} (h : written.Rejected) :
    Reads intern written :=
  reads_of_inner h.inner fun inner hi => reads_of_wellFormed (h.inner inner hi)

/-! ## Comments -/

theorem foldl_text {chars : List Char} (h : '@' ∉ chars) :
    chars.foldl (step intern) { place := .outside, found, store } =
      { place := .outside, found, store } := by
  induction chars with
  | nil => rfl
  | cons c chars ih =>
    have hc : c ≠ '@' := fun hc => h (hc ▸ List.mem_cons_self)
    have hstep : step intern { place := .outside, found, store } c =
        { place := .outside, found, store } := by
      simp [step, restart, hc]
    rw [List.foldl_cons, hstep, ih fun hmem => h (List.mem_cons_of_mem c hmem)]

/-- Every part of a comment leaves the scanner outside of all directives. -/
theorem foldl_part {part : CommentPart}
    (h : ∀ written, part = .directive written → written.WellFormed ∨ written.Rejected) :
    part.chars.foldl (step intern) { place := .outside, found, store } =
      { place := .outside
        found := (part.answer intern store).1.reverse ++ found
        store := (part.answer intern store).2 } := by
  cases part with
  | text chars plain => exact foldl_text plain
  | directive written =>
    have hreads : Reads intern written := by
      rcases h written rfl with hwell | hrejected
      · exact reads_of_wellFormed hwell
      · exact reads_of_rejected hrejected
    have hat : step intern { place := .outside, found, store } '@' =
        { place := .inName [], found, store } := rfl
    rw [CommentPart.chars, List.foldl_cons, hat, hreads, outcome, CommentPart.answer]
    cases written.meaning? <;> rfl

theorem foldl_parts {parts : List CommentPart}
    (h : ∀ written, .directive written ∈ parts → written.WellFormed ∨ written.Rejected) :
    (parts.flatMap CommentPart.chars).foldl (step intern) { place := .outside, found, store } =
      { place := .outside
        found := (CommentPart.answers intern parts store).1.reverse ++ found
        store := (CommentPart.answers intern parts store).2 } := by
  induction parts generalizing found store with
  | nil => rfl
  | cons part parts ih =>
    have hpart : ∀ written, part = .directive written → written.WellFormed ∨ written.Rejected :=
      fun written hp => h written (hp ▸ List.mem_cons_self)
    rw [List.flatMap_cons, List.foldl_append, foldl_part hpart,
      ih fun written hw => h written (List.mem_cons_of_mem part hw)]
    simp [CommentPart.answers]

end Scan

/-- A comment gives the directives that it spells: all that are well formed, in
order, with the references that the store gives out for their keys; the text
between them and the directives that are rejected give none. -/
theorem a_comment_gives_the_directives_it_spells (intern : TypeKey → Store → Ref × Store)
    {parts : List CommentPart}
    (h : ∀ written, .directive written ∈ parts → written.WellFormed ∨ written.Rejected)
    (store : Store) :
    parse intern (parts.flatMap CommentPart.chars) store =
      CommentPart.answers intern parts store := by
  rw [parse, Scan.foldl_parts h]
  simp

/-! ## A comment with two directives -/

/-- What a test finds of all characters, found in one go. -/
theorem forall_of_all {test : Char → Bool} {b : Bool} {cs : List Char}
    (h : (cs.all fun c => test c == b) = true) : ∀ c ∈ cs, test c = b := by
  simpa only [List.all_eq_true, beq_iff_eq] using h

/-- No blank. -/
def tight : Gap := ⟨[], nofun⟩

/-- One blank. -/
def spaced : Gap := ⟨[' '], forall_of_all (by decide)⟩

def nameOf (kind : DirectiveName) : WrittenName :=
  ⟨kind.letters, by cases kind <;> decide, forall_of_all (by cases kind <;> decide)⟩

def pathOf (path : String) (h : (path.toList.all fun c => isPathEnd c == false) = true) :
    WrittenPath := ⟨path.toList, forall_of_all h⟩

/-- The length that a member holds. -/
def lengthDirective : WrittenDirective :=
  .mk (nameOf .lengthFrom) tight (.last tight (.path (pathOf "n" (by decide))) tight)

def itemDirective : WrittenDirective :=
  .mk (nameOf .readAs) tight (.last spaced (.path (pathOf "/Game/item" (by decide))) spaced)

/-- A child with blanks in all of its gaps. -/
def childDirective : WrittenDirective :=
  .mk (nameOf .child) spaced
    (.more spaced (.path (pathOf "head.data" (by decide))) spaced
      (.last spaced (.directive itemDirective) spaced))

/-- A pointer to a directive. -/
def brokenDirective : WrittenDirective :=
  .mk (nameOf .pointsTo) tight (.last tight (.directive lengthDirective) tight)

def pointerDirective : WrittenDirective :=
  .mk (nameOf .pointsTo) tight (.last tight (.path (pathOf "int" (by decide))) tight)

def mixedComment : List CommentPart :=
  [.text "x), (y ".toList (by decide), .directive childDirective,
    .directive brokenDirective, .text " or ".toList (by decide), .directive pointerDirective]

/-- A store that numbers the keys that it is asked for. -/
def numberKey (key : TypeKey) (keys : List TypeKey) : Nat × List TypeKey :=
  (keys.length, keys ++ [key])

theorem the_directives_around_a_broken_one_are_found :
    mixedComment.flatMap CommentPart.chars =
        "x), (y @child ( head.data , @as( /Game/item ) )@ptr(@len(n)) or @ptr(int)".toList ∧
      (∀ written, .directive written ∈ mixedComment → written.WellFormed ∨ written.Rejected) ∧
      parse numberKey (mixedComment.flatMap CommentPart.chars) [] =
        ([.child "head.data" (.readAs "/Game/item" 0), .pointsTo "int" 1],
          [.of "Game" "item", .root "int"]) := by
  have hmixed : ∀ written, .directive written ∈ mixedComment →
      written.WellFormed ∨ written.Rejected := by
    intro written hw
    have hcases : written = childDirective ∨ written = brokenDirective ∨
        written = pointerDirective := by simpa [mixedComment] using hw
    rcases hcases with rfl | rfl | rfl
    · exact .inl (WrittenDirective.wellFormed_iff.mpr (by decide +kernel))
    · refine .inr ⟨mt WrittenDirective.wellFormed_iff.mp (by decide +kernel), ?_⟩
      intro inner hinner
      have hone : inner = lengthDirective := by
        simpa [brokenDirective, WrittenDirective.arguments, WrittenArguments.toList] using hinner
      exact hone ▸ WrittenDirective.wellFormed_iff.mpr (by decide +kernel)
    · exact .inl (WrittenDirective.wellFormed_iff.mpr (by decide +kernel))
  refine ⟨by decide +kernel, hmixed, ?_⟩
  rw [a_comment_gives_the_directives_it_spells numberKey hmixed]
  decide +kernel

end Directive

end BinaryAtlas
