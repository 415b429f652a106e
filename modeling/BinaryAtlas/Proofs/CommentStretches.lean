-- The laws of reading any comment, well written or not. What the scanner has
-- read is a row of stretches, text that it passes over, directives that it finds
-- and directives that it drops, and behind them what is still open. Each
-- character leads from one such reading to the next, so a comment gives only
-- directives that stand in it, each read once and in order.
import BinaryAtlas.Proofs.OpenDirectives

namespace BinaryAtlas

/-! ## One more character -/

/-- The gap with a blank behind it. -/
def Gap.push (gap : Gap) {c : Char} (hc : Text.isBlank c = true) : Gap where
  chars := gap.chars ++ [c]
  blank := by simpa [or_imp, forall_and, hc] using gap.blank

@[simp]
theorem Gap.chars_push (gap : Gap) {c : Char} (hc : Text.isBlank c = true) :
    (gap.push hc).chars = gap.chars ++ [c] := rfl

/-- The path with a character behind it. -/
def WrittenPath.push (path : WrittenPath) {c : Char} (hc : isPathEnd c = false) : WrittenPath where
  chars := path.chars ++ [c]
  plain := by simpa [or_imp, forall_and, hc] using path.plain

@[simp]
theorem WrittenPath.chars_push (path : WrittenPath) {c : Char} (hc : isPathEnd c = false) :
    (path.push hc).chars = path.chars ++ [c] := rfl

/-! ## Stretches -/

/-- A part of a comment as the scanner takes it. -/
inductive Stretch
  | text (chars : List Char)
  | found (directive : ProperDirective)
  /-- Directives that were begun, one among the arguments of the next, up to the
  last argument that was read before all of them were dropped. -/
  | dropped (inner : Opening) (outer : List Opening) (final : ProperItem)

namespace Stretch

open Directive (ask ask_append)

def chars : Stretch → List Char
  | .text cs => cs
  | .found d => d.chars
  | .dropped inner outer final => Opening.chainChars (inner :: outer) ++ final.chars

/-- The directives that were read as arguments of a directive that was dropped. -/
def lost : Stretch → List ProperDirective
  | .text _ => []
  | .found _ => []
  | .dropped inner outer final =>
    (Opening.chainItems (inner.push final :: outer)).filterMap ProperItem.directive?

/-- The directive that is found. -/
def found? : Stretch → Option ProperDirective
  | .found d => some d
  | _ => none

/-- The keys of the types that the stretch asks for. -/
def requests : Stretch → List TypeKey
  | .text _ => []
  | .found d => d.meaning.target?.toList
  | .dropped inner outer final =>
    (Opening.chainItems (inner.push final :: outer)).filterMap ProperItem.key?

section

variable {Store Ref : Type} (intern : TypeKey → Store → Ref × Store)

/-- The directives that are found, with the references that the store gives out
after the requests of all that stands before them. -/
def directives : List Stretch → Store → List (Directive Ref)
  | [], _ => []
  | stretch :: stretches, store =>
    (stretch.found?.map fun d => (d.meaning.answer intern store).1).toList ++
      directives stretches (ask intern stretch.requests store)

theorem directives_append (first rest : List Stretch) (store : Store) :
    directives intern (first ++ rest) store =
      directives intern first store ++
        directives intern rest (ask intern (first.flatMap requests) store) := by
  induction first generalizing store with
  | nil => rfl
  | cons stretch first ih =>
    rw [List.cons_append, directives, directives, ih, List.flatMap_cons, ask_append,
      List.append_assoc]

theorem directives_eq_nil_iff {stretches : List Stretch} {store : Store} :
    directives intern stretches store = [] ↔ ∀ s ∈ stretches, s.found? = none := by
  induction stretches generalizing store with
  | nil => simp [directives]
  | cons stretch stretches ih => simp [directives, ih]

end

end Stretch

/-! ## What is still open -/

/-- What the scanner has read since it stood outside of all directives. -/
inductive Unfinished
  | nothing
  /-- An at sign, and the letters after it so far. -/
  | inName (openings : List Opening) (before : Gap) (letters : List Char)
      (plain : ∀ c ∈ letters, isNameChar c = true)
  /-- A name, and blanks after it. -/
  | afterName (openings : List Opening) (before : Gap) (name : WrittenName) (gap : Gap)
  /-- An argument that is a path, if it is one at all. -/
  | inArgument (inner : Opening) (outer : List Opening) (path : WrittenPath)
  /-- A directive as an argument, and blanks after it. -/
  | afterArgument (inner : Opening) (outer : List Opening) (before : Gap)
      (directive : ProperDirective) (after : Gap)

namespace Unfinished

open Directive.Scan (placeIn)

def chars : Unfinished → List Char
  | .nothing => []
  | .inName openings before letters _ =>
    Opening.chainChars openings ++ (before.chars ++ '@' :: letters)
  | .afterName openings before name gap =>
    Opening.chainChars openings ++ (before.chars ++ '@' :: (name.letters ++ gap.chars))
  | .inArgument inner outer p => Opening.chainChars (inner :: outer) ++ p.chars
  | .afterArgument inner outer before d after =>
    Opening.chainChars (inner :: outer) ++ ProperItem.chars ⟨before, .directive d, after⟩

/-- Where the scanner stands. -/
def place : Unfinished → Directive.ScanPlace
  | .nothing => .outside
  | .inName _ _ letters _ => .inName letters.reverse
  | .afterName _ _ name _ => .afterName name.letters
  | .inArgument _ _ p => placeIn p.chars
  | .afterArgument .. => .afterArgument

/-- The directives that are open, with all arguments that have been read. -/
def openings : Unfinished → List Opening
  | .nothing => []
  | .inName openings .. => openings
  | .afterName openings .. => openings
  | .inArgument inner outer _ => inner :: outer
  | .afterArgument inner outer before d after => inner.push ⟨before, .directive d, after⟩ :: outer

/-- Open directives that are dropped before their next argument. -/
def dropChain : List Opening → List Stretch
  | [] => []
  | inner :: outer => [.dropped inner outer (.ofPath ⟨[], nofun⟩)]

/-- The stretches that are left when all that is open is dropped. -/
def drop : Unfinished → List Stretch
  | .nothing => []
  | .inName openings before letters _ =>
    dropChain openings ++ [.text (before.chars ++ '@' :: letters)]
  | .afterName openings before name gap =>
    dropChain openings ++ [.text (before.chars ++ '@' :: (name.letters ++ gap.chars))]
  | .inArgument inner outer p => [.dropped inner outer (.ofPath p)]
  | .afterArgument inner outer before d after =>
    [.dropped inner outer ⟨before, .directive d, after⟩]

theorem chars_dropChain (chain : List Opening) :
    (dropChain chain).flatMap Stretch.chars = Opening.chainChars chain := by
  cases chain <;> simp [dropChain, Stretch.chars, Opening.chainChars]

theorem chars_drop (u : Unfinished) : u.drop.flatMap Stretch.chars = u.chars := by
  cases u <;> simp [drop, chars, Stretch.chars, chars_dropChain]

theorem requests_dropChain (chain : List Opening) :
    (dropChain chain).flatMap Stretch.requests =
      (Opening.chainItems chain).filterMap ProperItem.key? := by
  cases chain <;> simp [dropChain, Stretch.requests, Opening.chainItems, Opening.push]

theorem requests_drop (u : Unfinished) :
    u.drop.flatMap Stretch.requests =
      (Opening.chainItems u.openings).filterMap ProperItem.key? := by
  cases u with
  | nothing => rfl
  | inName openings before letters plain => simp [drop, Unfinished.openings, Stretch.requests,
      requests_dropChain]
  | afterName openings before name gap => simp [drop, Unfinished.openings, Stretch.requests,
      requests_dropChain]
  | inArgument inner outer p => simp [drop, Unfinished.openings, Stretch.requests,
      Opening.chainItems_push]
  | afterArgument inner outer before d after => simp [drop, Unfinished.openings, Stretch.requests]

theorem found?_drop (u : Unfinished) : ∀ s ∈ u.drop, s.found? = none := by
  have hchain (chain : List Opening) : ∀ s ∈ dropChain chain, s.found? = none := by
    cases chain <;> simp [dropChain, Stretch.found?]
  cases u with
  | nothing => exact nofun
  | inName openings before letters plain =>
    simpa [drop, Stretch.found?, or_imp, forall_and] using hchain openings
  | afterName openings before name gap =>
    simpa [drop, Stretch.found?, or_imp, forall_and] using hchain openings
  | inArgument inner outer p => simp [drop, Stretch.found?]
  | afterArgument inner outer before d after => simp [drop, Stretch.found?]

end Unfinished

/-! ## Characters of an argument -/

namespace Directive.Scan

variable {Store Ref : Type} {intern : TypeKey → Store → Ref × Store} {opened : List (Opened Ref)}
  {found : List (Directive Ref)} {store : Store} {text : List Char}

theorem step_placeIn (path : WrittenPath) {c : Char} (hc : isPathEnd c = false) :
    step intern { place := placeIn path.chars, opened, found, store } c =
      { place := placeIn (path.push hc).chars, opened, found, store } := by
  rw [← foldl_path path.plain, ← foldl_path (path.push hc).plain, WrittenPath.chars_push,
    List.foldl_concat]

/-- An at sign begins a directive as an argument, if only blanks stand before it. -/
theorem step_placeIn_at :
    step intern { place := placeIn text, opened, found, store } '@' =
      { place := .inName [], opened := if text.all Text.isBlank then opened else [], found,
        store } := by
  have hend : isPathEnd '@' = true := rfl
  have hblank : Text.isBlank '@' = false := rfl
  unfold placeIn
  split
  · simp [step, hblank]
  · cases opened <;> simp [step, hend, takeAfterArgument, addArgument, restart]

theorem step_placeIn_open :
    step intern { place := placeIn text, opened, found, store } '(' =
      { place := .outside, found, store } := by
  have hend : isPathEnd '(' = true := rfl
  have hblank : Text.isBlank '(' = false := rfl
  unfold placeIn
  split <;> cases opened <;>
    simp [step, hend, hblank, takeAfterArgument, addArgument, restart]

end Directive.Scan

/-! ## Readings -/

/-- A text as the scanner has read it. -/
structure CommentReading where
  stretches : List Stretch
  rest : Unfinished

namespace CommentReading

open Directive (Scan ask readChain)

section

variable {Store Ref : Type} (intern : TypeKey → Store → Ref × Store)

def chars (r : CommentReading) : List Char := r.stretches.flatMap Stretch.chars ++ r.rest.chars

/-- The scanner behind stretches and open directives. -/
def scanAt (stretches : List Stretch) (place : Directive.ScanPlace) (openings : List Opening)
    (store : Store) : Scan Store Ref :=
  let chain := readChain intern openings (ask intern (stretches.flatMap Stretch.requests) store)
  { place, opened := chain.1, found := (Stretch.directives intern stretches store).reverse,
    store := chain.2 }

/-- The scanner after the text. -/
def scan (r : CommentReading) (store : Store) : Scan Store Ref :=
  scanAt intern r.stretches r.rest.place r.rest.openings store

end

/-- One more character leads from a reading to another one. -/
structure Next (r : CommentReading) (c : Char) (r' : CommentReading) : Prop where
  chars : r'.chars = r.chars ++ [c]
  scan : ∀ {Store Ref : Type} (intern : TypeKey → Store → Ref × Store) (store : Store),
    (r.scan intern store).step intern c = r'.scan intern store

/-- The reading after all that is open has been dropped at a character. -/
def dropAt (r : CommentReading) (c : Char) : CommentReading :=
  if c = '@' then ⟨r.stretches ++ r.rest.drop, .inName [] Directive.tight [] nofun⟩
  else ⟨r.stretches ++ r.rest.drop ++ [.text [c]], .nothing⟩

theorem chars_dropAt (r : CommentReading) (c : Char) : (r.dropAt c).chars = r.chars ++ [c] := by
  unfold dropAt
  split
  · rename_i hc
    simp [chars, Unfinished.chars, r.rest.chars_drop, Opening.chainChars, Directive.tight, hc]
  · simp [chars, Unfinished.chars, r.rest.chars_drop, Stretch.chars]

section

variable {Store Ref : Type} (intern : TypeKey → Store → Ref × Store)

/-- Behind stretches in which nothing is found, only the store has changed. -/
theorem scanAt_append {more : List Stretch} (h : ∀ s ∈ more, s.found? = none)
    (stretches : List Stretch) (place : Directive.ScanPlace) (store : Store) :
    scanAt intern (stretches ++ more) place [] store =
      { place
        found := (Stretch.directives intern stretches store).reverse
        store := ask intern (more.flatMap Stretch.requests)
          (ask intern (stretches.flatMap Stretch.requests) store) } := by
  simp [scanAt, readChain, Stretch.directives_append, (Stretch.directives_eq_nil_iff intern).mpr h,
    Directive.ask_append]

/-- What is dropped has asked the store, and nothing of it is found. -/
theorem scan_dropAt (r : CommentReading) (c : Char) (store : Store) :
    (r.dropAt c).scan intern store = (r.scan intern store).restart c := by
  have hfound := r.rest.found?_drop
  have hmore : ∀ s ∈ r.rest.drop ++ [.text [c]], s.found? = none := by
    simpa [or_imp, forall_and, Stretch.found?] using hfound
  have hrequests : (r.rest.drop ++ [Stretch.text [c]]).flatMap Stretch.requests =
      r.rest.drop.flatMap Stretch.requests := by
    simp [Stretch.requests]
  unfold dropAt scan
  split
  · rename_i hc
    rw [Unfinished.place, Unfinished.openings, scanAt_append intern hfound, r.rest.requests_drop,
      ← Directive.readChain_snd, Scan.restart, if_pos hc]
    rfl
  · rename_i hc
    rw [Unfinished.place, Unfinished.openings, List.append_assoc, scanAt_append intern hmore,
      hrequests, r.rest.requests_drop, ← Directive.readChain_snd, Scan.restart, if_neg hc]
    rfl

end

theorem next_dropAt {r : CommentReading} {c : Char}
    (h : ∀ {Store Ref : Type} (intern : TypeKey → Store → Ref × Store) (store : Store),
      (r.scan intern store).step intern c = (r.scan intern store).restart c) :
    Next r c (r.dropAt c) where
  chars := r.chars_dropAt c
  scan intern store := by rw [h, scan_dropAt]

/-! ## Steps -/

section

variable {stretches : List Stretch} {openings outer : List Opening} {inner : Opening}
  {before gap : Gap} {name : WrittenName}

theorem exists_next_afterName (c : Char) :
    ∃ r', Next ⟨stretches, .afterName openings before name gap⟩ c r' := by
  by_cases hblank : Text.isBlank c = true
  · refine ⟨⟨stretches, .afterName openings before name (gap.push hblank)⟩, ?_, ?_⟩
    · simp [chars, Unfinished.chars]
    · intro Store Ref intern store
      simp [scan, scanAt, Unfinished.place, Unfinished.openings, Scan.step, Scan.takeAfterName,
        hblank]
  by_cases hopen : c = '('
  · refine ⟨⟨stretches, .inArgument { before, name, gap } openings ⟨[], nofun⟩⟩, ?_, ?_⟩
    · simp [chars, Unfinished.chars, Opening.chainChars, Opening.chars, hopen]
    · intro Store Ref intern store
      subst hopen
      rfl
  · refine ⟨_, next_dropAt fun intern store => ?_⟩
    simp [scan, scanAt, Unfinished.place, Scan.step, Scan.takeAfterName, hblank, hopen]

/-- A character that ends a name is read as one behind it. -/
theorem next_inName {c : Char} {r' : CommentReading} (hc : isNameChar c = false)
    (h : Next ⟨stretches, .afterName openings before name Directive.tight⟩ c r') :
    Next ⟨stretches, .inName openings before name.letters name.plain⟩ c r' where
  chars := by
    rw [h.chars]
    simp [chars, Unfinished.chars, Directive.tight]
  scan intern store := by
    rw [← h.scan]
    simp [scan, scanAt, Unfinished.place, Unfinished.openings, Scan.step, hc, name.nonempty,
      Scan.takeAfterName, Scan.restart]

end

/-! ## The end of an argument -/

section

variable {stretches : List Stretch} {outer : List Opening} {inner : Opening} {final : ProperItem}

/-- A directive that means nothing is dropped with all that is open around it. -/
theorem close_dropped (h : (inner.close final).meaning? = none) {Store Ref : Type}
    (intern : TypeKey → Store → Ref × Store) (store : Store) :
    (scanAt intern stretches .afterArgument (inner.push final :: outer) store).close intern =
      scan intern ⟨stretches ++ [.dropped inner outer final, .text [')']], .nothing⟩ store := by
  have hbuild := Directive.build_close intern inner final
    (readChain intern outer (ask intern (stretches.flatMap Stretch.requests) store)).2
  have hnone : ∀ s ∈ [Stretch.dropped inner outer final, .text [')']], s.found? = none := by
    simp [Stretch.found?]
  have hstore := Directive.readChain_snd intern (inner.push final :: outer)
    (ask intern (stretches.flatMap Stretch.requests) store)
  rw [h] at hbuild
  rw [scan, Unfinished.place, Unfinished.openings, scanAt_append intern hnone]
  simp only [List.flatMap_cons, List.flatMap_nil, Stretch.requests, List.append_nil]
  rw [← hstore, scanAt, Scan.close]
  simp only [readChain]
  rw [Opening.name_push, hbuild]

/-- A directive that means something is found if nothing is open around it. -/
theorem close_found {d : ProperDirective} (h : d.written = inner.close final) {Store Ref : Type}
    (intern : TypeKey → Store → Ref × Store) (store : Store) :
    (scanAt intern stretches .afterArgument [inner.push final] store).close intern =
      scan intern ⟨stretches ++ [.text inner.before.chars, .found d], .nothing⟩ store := by
  have hbuild := Directive.build_close intern inner final
    (ask intern (stretches.flatMap Stretch.requests) store)
  have hstore := Directive.answer_snd_eq_ask intern d.meaning
    (ask intern (stretches.flatMap Stretch.requests) store)
  rw [← h, d.meaning?_written] at hbuild
  rw [scanAt, Scan.close]
  simp only [readChain]
  rw [Opening.name_push, hbuild]
  simp [scan, scanAt, Unfinished.place, Unfinished.openings, readChain, Stretch.directives_append,
    Stretch.directives, Stretch.found?, Stretch.requests, Directive.ask_append, hstore]

/-- Else it is an argument of the directive around it. -/
theorem close_argument {d : ProperDirective} (h : d.written = inner.close final)
    {next : Opening} {Store Ref : Type}
    (intern : TypeKey → Store → Ref × Store) (store : Store) :
    (scanAt intern stretches .afterArgument (inner.push final :: next :: outer) store).close
        intern =
      scan intern ⟨stretches, .afterArgument next outer inner.before d Directive.tight⟩ store := by
  have hbuild := Directive.build_close intern inner final
    (readChain intern (next :: outer) (ask intern (stretches.flatMap Stretch.requests) store)).2
  rw [← h, d.meaning?_written] at hbuild
  rw [scanAt, Scan.close]
  simp only [readChain] at hbuild ⊢
  rw [Opening.name_push, hbuild]
  simp only [scan, scanAt, Unfinished.place, Unfinished.openings, readChain, Opening.push,
    Directive.readItems_append]
  rfl

/-- The parenthesis behind the last argument of the innermost directive. -/
theorem exists_next_of_close {rest : Unfinished}
    (hchars : rest.chars = Opening.chainChars (inner :: outer) ++ final.chars)
    (hclose : ∀ {Store Ref : Type} (intern : TypeKey → Store → Ref × Store) (store : Store),
      (scan intern ⟨stretches, rest⟩ store).step intern ')' =
        (scanAt intern stretches .afterArgument (inner.push final :: outer) store).close intern) :
    ∃ r', Next ⟨stretches, rest⟩ ')' r' := by
  -- What is closed is found, or is an argument itself, or is dropped with all around it.
  by_cases hwell : (inner.close final).WellFormed
  · let d : ProperDirective := ⟨inner.close final, hwell⟩
    have hd : inner.before.chars ++ d.chars = inner.chars ++ (final.chars ++ [')']) :=
      Opening.chars_close inner final
    cases outer with
    | nil =>
      refine ⟨⟨stretches ++ [.text inner.before.chars, .found d], .nothing⟩, ?_, ?_⟩
      · rw [chars, chars, hchars]
        simp [Unfinished.chars, Opening.chainChars, Stretch.chars, hd]
      · intro Store Ref intern store
        rw [hclose, close_found (d := d) rfl]
    | cons next outer =>
      refine ⟨⟨stretches, .afterArgument next outer inner.before d Directive.tight⟩, ?_, ?_⟩
      · have hitem : ProperItem.chars ⟨inner.before, .directive d, Directive.tight⟩ =
            inner.chars ++ (final.chars ++ [')']) := by
          rw [← hd]
          simp [ProperItem.chars, Directive.tight, ProperArgument.written, WrittenArgument.chars,
            ProperDirective.chars]
        rw [chars, chars, hchars]
        simp [Unfinished.chars, Opening.chainChars, hitem]
      · intro Store Ref intern store
        rw [hclose, close_argument (d := d) rfl]
  · have hmeaning : (inner.close final).meaning? = none := by
      simpa [WrittenDirective.wellFormed_iff] using hwell
    refine ⟨⟨stretches ++ [.dropped inner outer final, .text [')']], .nothing⟩, ?_, ?_⟩
    · rw [chars, chars, hchars]
      simp [Unfinished.chars, Stretch.chars]
    · intro Store Ref intern store
      rw [hclose, close_dropped hmeaning]

/-- The comma or the parenthesis behind an argument. -/
theorem exists_next_of_end {rest : Unfinished} {c : Char} (hc : c = ',' ∨ c = ')')
    (hchars : rest.chars = Opening.chainChars (inner :: outer) ++ final.chars)
    (hscan : ∀ {Store Ref : Type} (intern : TypeKey → Store → Ref × Store) (store : Store),
      (scan intern ⟨stretches, rest⟩ store).step intern c =
        (scanAt intern stretches .afterArgument (inner.push final :: outer)
          store).takeAfterArgument intern c) :
    ∃ r', Next ⟨stretches, rest⟩ c r' := by
  rcases hc with rfl | rfl
  · refine ⟨⟨stretches, .inArgument (inner.push final) outer ⟨[], nofun⟩⟩, ?_, ?_⟩
    · rw [chars, chars, hchars]
      simp [Unfinished.chars, Opening.chainChars, Opening.chars_push]
    · intro Store Ref intern store
      rw [hscan]
      rfl
  · exact exists_next_of_close hchars fun intern store => hscan intern store

end

/-! ## Reading on -/

theorem exists_next_inArgument {stretches : List Stretch} {inner : Opening}
    {outer : List Opening} {path : WrittenPath} (c : Char) :
    ∃ r', Next ⟨stretches, .inArgument inner outer path⟩ c r' := by
  by_cases hend : isPathEnd c = true
  · have hcases : (c = ',' ∨ c = ')') ∨ c = '(' ∨ c = '@' := by
      simpa [isPathEnd, or_assoc] using hend
    rcases hcases with hc | rfl | rfl
    · have hchars : Unfinished.chars (.inArgument inner outer path) =
          Opening.chainChars (inner :: outer) ++ (ProperItem.ofPath path).chars := by
        simp [Unfinished.chars]
      refine exists_next_of_end hc hchars fun intern store => ?_
      simp only [scan, scanAt, Unfinished.place, Unfinished.openings, readChain]
      rw [Scan.step_pathEnd hc, Opening.push, Directive.readItems_append]
      rfl
    · exact ⟨_, next_dropAt fun intern store => Scan.step_placeIn_open⟩
    · by_cases hall : path.chars.all Text.isBlank = true
      · refine ⟨⟨stretches, .inName (inner :: outer) ⟨path.chars, List.all_eq_true.mp hall⟩ []
          nofun⟩, ?_, ?_⟩
        · simp [chars, Unfinished.chars, Opening.chainChars]
        · intro Store Ref intern store
          refine Scan.step_placeIn_at.trans ?_
          rw [if_pos hall]
          rfl
      · refine ⟨_, next_dropAt fun intern store => Scan.step_placeIn_at.trans ?_⟩
        rw [if_neg hall]
        rfl
  · rw [Bool.not_eq_true] at hend
    refine ⟨⟨stretches, .inArgument inner outer (path.push hend)⟩, ?_, ?_⟩
    · simp [chars, Unfinished.chars, Opening.chainChars]
    · intro Store Ref intern store
      exact Scan.step_placeIn path hend

/-- The scanner takes every character in one of these ways. -/
theorem exists_next (r : CommentReading) (c : Char) : ∃ r', Next r c r' := by
  obtain ⟨stretches, rest⟩ := r
  cases rest with
  | nothing => exact ⟨_, next_dropAt fun intern store => rfl⟩
  | inName openings before letters plain =>
    by_cases hc : isNameChar c = true
    · have hplain : ∀ c' ∈ letters ++ [c], isNameChar c' = true := by
        simpa [or_imp, forall_and, hc] using plain
      refine ⟨⟨stretches, .inName openings before (letters ++ [c]) hplain⟩, ?_, ?_⟩
      · simp [chars, Unfinished.chars]
      · intro Store Ref intern store
        simp [scan, scanAt, Unfinished.place, Unfinished.openings, Scan.step, hc]
    rw [Bool.not_eq_true] at hc
    by_cases hletters : letters = []
    · refine ⟨_, next_dropAt fun intern store => ?_⟩
      simp [scan, scanAt, Unfinished.place, Scan.step, hc, hletters]
    · let name : WrittenName := ⟨letters, hletters, plain⟩
      have hafter : ∃ r', Next ⟨stretches, .afterName openings before name Directive.tight⟩ c r' :=
        exists_next_afterName c
      obtain ⟨r', hnext⟩ := hafter
      exact ⟨r', next_inName hc hnext⟩
  | afterName openings before name gap => exact exists_next_afterName c
  | inArgument inner outer path => exact exists_next_inArgument c
  | afterArgument inner outer before d after =>
    by_cases hblank : Text.isBlank c = true
    · refine ⟨⟨stretches, .afterArgument inner outer before d (after.push hblank)⟩, ?_, ?_⟩
      · simp [chars, Unfinished.chars, ProperItem.chars]
      · intro Store Ref intern store
        simp only [scan, scanAt, Unfinished.place, Unfinished.openings, Scan.step, hblank, if_true]
        simp only [readChain, Opening.push, Directive.readItems_append]
        rfl
    by_cases hc : c = ',' ∨ c = ')'
    · refine exists_next_of_end hc rfl fun intern store => ?_
      simp [scan, scanAt, Unfinished.place, Unfinished.openings, Scan.step, hblank]
    · refine ⟨_, next_dropAt fun intern store => ?_⟩
      rw [not_or] at hc
      simp [scan, scanAt, Unfinished.place, Scan.step, Scan.takeAfterArgument, hblank, hc]

/-- Every text has a reading, whatever the store is. -/
theorem exists_reading (text : List Char) :
    ∃ r : CommentReading, r.chars = text ∧
      ∀ {Store Ref : Type} (intern : TypeKey → Store → Ref × Store) (store : Store),
        text.foldl (Scan.step intern) { store } = r.scan intern store := by
  -- The reading of a text is the one of its front with the last character taken.
  induction text using List.reverseRecOn with
  | nil => exact ⟨⟨[], .nothing⟩, rfl, fun intern store => rfl⟩
  | append_singleton text c ih =>
    obtain ⟨r, hchars, hscan⟩ := ih
    obtain ⟨r', hnext⟩ := r.exists_next c
    refine ⟨r', by rw [hnext.chars, hchars], fun intern store => ?_⟩
    rw [List.foldl_concat, hscan, hnext.scan]

/-- Every comment is a row of stretches, and it gives the directives that are
found in them. -/
theorem exists_stretches (comment : List Char) :
    ∃ stretches : List Stretch, stretches.flatMap Stretch.chars = comment ∧
      ∀ {Store Ref : Type} (intern : TypeKey → Store → Ref × Store) (store : Store),
        Directive.parse intern comment store =
          (Stretch.directives intern stretches store,
            ask intern (stretches.flatMap Stretch.requests) store) := by
  obtain ⟨r, hchars, hscan⟩ := exists_reading comment
  refine ⟨r.stretches ++ r.rest.drop, ?_, fun intern store => ?_⟩
  · rw [← hchars, List.flatMap_append, r.rest.chars_drop, chars]
  · have hstore := Directive.readChain_snd intern r.rest.openings
      (ask intern (r.stretches.flatMap Stretch.requests) store)
    rw [← r.rest.requests_drop] at hstore
    rw [Directive.parse, hscan, Stretch.directives_append,
      (Stretch.directives_eq_nil_iff intern).mpr r.rest.found?_drop, List.flatMap_append,
      Directive.ask_append, ← hstore]
    simp [scan, scanAt]

end CommentReading

end BinaryAtlas
