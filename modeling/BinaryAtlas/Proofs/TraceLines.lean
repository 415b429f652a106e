-- The laws of call traces. A line is a call just if it is made of the parts of one,
-- from the digits of its address to the blanks behind its target. A line feed parts a
-- trace into two that are read on their own, so what stands on a line, proper text
-- or not, never disturbs another.
import BinaryAtlas.Calls.Trace
import BinaryAtlas.Proofs.LineScan
import BinaryAtlas.Proofs.LossyText
import BinaryAtlas.Proofs.SpelledNumbers
import Mathlib.Data.List.DropRight

namespace BinaryAtlas.CallRecord

/-! ## Runs -/

section

variable {p : Char → Bool} {cs first rest : List Char}

/-- A run is taken whole: it ends where the text does, or before a character that
does not belong to it. -/
theorem run?_eq_some_iff : run? p cs = some (first, rest) ↔
    cs = first ++ rest ∧ first ≠ [] ∧ (∀ c ∈ first, p c = true) ∧
      ∀ c ∈ rest.head?, p c = false := by
  unfold run?
  rw [Option.ite_none_left_eq_some, List.isEmpty_iff]
  constructor
  · rintro ⟨hne, h⟩
    simp only [Option.some.injEq, Prod.mk.injEq] at h
    obtain ⟨rfl, rfl⟩ := h
    refine ⟨List.takeWhile_append_dropWhile.symm, hne, fun c hc => List.mem_takeWhile_imp hc, ?_⟩
    intro c hc
    have hstop := List.head?_dropWhile_not p cs
    rw [Option.mem_def.mp hc] at hstop
    exact hstop
  · rintro ⟨rfl, hne, hfirst, hrest⟩
    have hstop : rest.takeWhile p = [] ∧ rest.dropWhile p = rest := by
      cases rest with
      | nil => exact ⟨rfl, rfl⟩
      | cons c rest => simp [hrest c rfl]
    rw [List.takeWhile_append_of_pos hfirst, List.dropWhile_append_of_pos hfirst, hstop.1, hstop.2,
      List.append_nil]
    exact ⟨hne, rfl⟩

theorem run?_append (hne : first ≠ []) (hfirst : ∀ c ∈ first, p c = true)
    (hrest : ∀ c ∈ rest.head?, p c = false) : run? p (first ++ rest) = some (first, rest) :=
  run?_eq_some_iff.mpr ⟨rfl, hne, hfirst, hrest⟩

/-- The characters between two parts of a line: one or more blanks. -/
def IsGap (cs : List Char) : Prop := cs ≠ [] ∧ ∀ c ∈ cs, Text.isBlank c = true

theorem afterBlanks?_eq_some_iff : afterBlanks? cs = some rest ↔
    ∃ gap, IsGap gap ∧ cs = gap ++ rest ∧ ∀ c ∈ rest.head?, Text.isBlank c = false := by
  unfold afterBlanks? IsGap
  simp only [Option.map_eq_some_iff, Prod.exists, run?_eq_some_iff]
  constructor
  · rintro ⟨gap, _, ⟨hcs, hne, hgap, hrest⟩, rfl⟩
    exact ⟨gap, ⟨hne, hgap⟩, hcs, hrest⟩
  · rintro ⟨gap, ⟨hne, hgap⟩, hcs, hrest⟩
    exact ⟨gap, rest, ⟨hcs, hne, hgap, hrest⟩, rfl⟩

theorem afterBlanks?_gap (hgap : IsGap first) (hrest : ∀ c ∈ rest.head?, Text.isBlank c = false) :
    afterBlanks? (first ++ rest) = some rest :=
  afterBlanks?_eq_some_iff.mpr ⟨first, hgap, rfl, hrest⟩

theorem afterWord?_eq_some_iff {word : List Char} :
    afterWord? word cs = some rest ↔ cs = word ++ rest := by
  unfold afterWord?
  rw [Option.ite_none_right_eq_some, List.isPrefixOf_iff_prefix]
  constructor
  · rintro ⟨⟨tail, rfl⟩, h⟩
    simpa using h
  · rintro rfl
    simp

/-- What begins with one kind of characters does not begin with another. -/
theorem not_of_head? {q : Char → Bool} (hne : first ≠ []) (hfirst : ∀ c ∈ first, q c = true)
    (hpq : ∀ c, q c = true → p c = false) : ∀ c ∈ (first ++ rest).head?, p c = false := by
  intro c hc
  rw [List.head?_append_of_ne_nil first hne] at hc
  exact hpq c (hfirst c (List.mem_of_mem_head? hc))

end

theorem not_isBlank_of_isHexDigit (c : Char) (h : Text.isHexDigit c = true) :
    Text.isBlank c = false := by
  have hdigits : ∀ v < 16, Text.isBlank v.digitChar = false ∧
      Text.isBlank v.digitChar.toUpper = false := by decide
  obtain ⟨value, hvalue⟩ := Option.isSome_iff_exists.mp h
  obtain ⟨hlt, rfl | rfl⟩ := (Text.digit?_eq_some_iff (Nat.le_refl 16)).mp hvalue
  · exact (hdigits value hlt).1
  · exact (hdigits value hlt).2

theorem not_isHexDigit_of_isBlank (c : Char) (h : Text.isBlank c = true) :
    Text.isHexDigit c = false := by
  by_contra hdigit
  rw [not_isBlank_of_isHexDigit c (by simpa using hdigit)] at h
  cases h

/-! ## Lines -/

/-- The parts of a line that is a call, in order. The call word stands behind the
second gap. -/
structure CallLine where
  digits : List Char
  afterDigits : List Char
  code : List Char
  afterCode : List Char
  afterWord : List Char
  target : List Char
  tail : List Char

namespace CallLine

def text (line : CallLine) : List Char :=
  line.digits ++ (line.afterDigits ++ (line.code ++ (line.afterCode ++ (callWord ++
    (line.afterWord ++ (line.target ++ line.tail))))))

/-- The parts are those of a call: eight hexadecimal digits that spell its address, a row
of hexadecimal digits, and its target without blanks. Gaps part them, and blanks may
follow. -/
structure Tells (line : CallLine) (call : CallRecord) : Prop where
  eight : line.digits.length = 8
  address : Text.IsNumeral 16 line.digits call.address.toNat
  code : ∃ n, Text.IsNumeral 16 line.code n
  gaps : IsGap line.afterDigits ∧ IsGap line.afterCode ∧ IsGap line.afterWord
  target : line.target = call.target.toList
  solid : line.target ≠ [] ∧ ∀ c ∈ line.target, Text.isBlank c = false
  tail : ∀ c ∈ line.tail, Text.isBlank c = true

end CallLine

/-- Eight digits spell an address. -/
theorem isNumeral_of_digits {digits : List Char} {n : Nat} (hlength : digits.length = 8)
    (hvalue : Text.digitsValue? 16 0 digits = some n) :
    Text.IsNumeral 16 digits (UInt32.ofNat n).toNat := by
  have hlt := Text.digitsValue?_lt hvalue
  rw [hlength, Nat.zero_add, Nat.one_mul] at hlt
  have hne : digits ≠ [] := List.ne_nil_of_length_pos (by omega)
  rw [UInt32.toNat_ofNat_of_lt' hlt]
  exact (Text.isNumeral_iff (Nat.le_refl 16)).mpr ⟨hne, hvalue⟩

theorem tells_of_ofLine? {line : List Char} {call : CallRecord} (h : ofLine? line = some call) :
    ∃ parts : CallLine, parts.text = line ∧ parts.Tells call := by
  unfold ofLine? at h
  simp only [Option.bind_eq_bind, Option.bind_none, Option.ite_none_left_eq_some,
    Option.bind_eq_some_iff, Option.ite_none_right_eq_some, Prod.exists, not_not,
    Option.some.injEq] at h
  obtain ⟨hlength, n, hvalue, rest₁, hafterDigits, code, rest₂, hcode, rest₃, hafterCode, rest₄,
    hword, rest₅, hafterWord, target, tail, htarget, htail, rfl⟩ := h
  obtain ⟨afterDigits, hgap₁, hrest, -⟩ := afterBlanks?_eq_some_iff.mp hafterDigits
  obtain ⟨rfl, hcodeNe, hcodeDigits, -⟩ := run?_eq_some_iff.mp hcode
  obtain ⟨afterCode, hgap₂, rfl, -⟩ := afterBlanks?_eq_some_iff.mp hafterCode
  obtain rfl := afterWord?_eq_some_iff.mp hword
  obtain ⟨afterWord, hgap₃, rfl, -⟩ := afterBlanks?_eq_some_iff.mp hafterWord
  obtain ⟨rfl, htargetNe, hsolid, -⟩ := run?_eq_some_iff.mp htarget
  refine ⟨⟨line.take addressDigits, afterDigits, code, afterCode, afterWord, target, tail⟩, ?_, ?_⟩
  · rw [CallLine.text, ← hrest, List.take_append_drop]
  · exact {
      eight := hlength
      address := isNumeral_of_digits hlength hvalue
      code := Text.IsNumeral.exists_iff_isHexDigit.mpr ⟨hcodeNe, hcodeDigits⟩
      gaps := ⟨hgap₁, hgap₂, hgap₃⟩
      target := String.toList_ofList.symm
      solid := ⟨htargetNe, by simpa using hsolid⟩
      tail := by simpa using htail }

/-- Each part ends where the next one begins, so the parts are found one after the
other. -/
theorem ofLine?_of_tells {parts : CallLine} {call : CallRecord} (h : parts.Tells call) :
    ofLine? parts.text = some call := by
  obtain ⟨digits, afterDigits, code, afterCode, afterWord, target, tail⟩ := parts
  obtain ⟨hlength, haddress, hcode, ⟨hgap₁, hgap₂, hgap₃⟩, rfl, ⟨htargetNe, htarget⟩, htail⟩ := h
  simp only at haddress hcode hgap₁ hgap₂ hgap₃ htargetNe htarget htail
  replace hlength : digits.length = addressDigits := hlength
  obtain ⟨hcodeNe, hcode⟩ := Text.IsNumeral.exists_iff_isHexDigit.mp hcode
  obtain ⟨-, hvalue⟩ := (Text.isNumeral_iff (Nat.le_refl 16)).mp haddress
  have hword : ∀ c ∈ (callWord ++ (afterWord ++ (call.target.toList ++ tail))).head?,
      Text.isBlank c = false := by
    rintro c ⟨⟩
    decide
  have htargetHead : ∀ c ∈ (call.target.toList ++ tail).head?, Text.isBlank c = false :=
    not_of_head? (q := fun c => !Text.isBlank c) htargetNe (by simpa using htarget) (by simp)
  have htailHead : ∀ c ∈ tail.head?, (!Text.isBlank c) = false := by
    intro c hc
    simpa using htail c (List.mem_of_mem_head? hc)
  unfold ofLine? CallLine.text
  simp only [Option.bind_eq_bind, List.take_left' hlength, List.drop_left' hlength]
  rw [if_neg (not_not.mpr hlength), hvalue, Option.bind_some,
    afterBlanks?_gap hgap₁ (not_of_head? hcodeNe hcode not_isBlank_of_isHexDigit),
    Option.bind_some,
    run?_append hcodeNe hcode (not_of_head? hgap₂.1 hgap₂.2 not_isHexDigit_of_isBlank),
    Option.bind_some, afterBlanks?_gap hgap₂ hword, Option.bind_some,
    afterWord?_eq_some_iff.mpr rfl, Option.bind_some, afterBlanks?_gap hgap₃ htargetHead,
    Option.bind_some, run?_append htargetNe (by simpa using htarget) htailHead, Option.bind_some,
    if_pos (by simpa using htail), UInt32.ofNat_toNat, String.ofList_toList]

theorem ofLine?_eq_some_iff {line : List Char} {call : CallRecord} :
    ofLine? line = some call ↔ ∃ parts : CallLine, parts.text = line ∧ parts.Tells call := by
  constructor
  · exact tells_of_ofLine?
  · rintro ⟨parts, rfl, h⟩
    exact ofLine?_of_tells h

/-! ## Traces -/

/-- The call on a line of bytes, whatever bytes stand on it and however many carriage
returns and line feeds end it. -/
def onLine? (line : List UInt8) : Option CallRecord :=
  ofLine? ((Text.decodeLossy line).rdropWhile isLineEnd)

/-- A line may be read with its line feed or without. -/
theorem onLine?_lineFeed (line : List UInt8) : onLine? (line ++ [lineFeed]) = onLine? line := by
  have hdecode : Text.decodeLossy (line ++ [lineFeed]) = Text.decodeLossy line ++ ['\n'] :=
    Text.decodeLossy_append_ascii (by decide) line []
  unfold onLine?
  rw [hdecode, List.rdropWhile_concat_pos _ _ _ rfl]

theorem readTrace_eq (bytes : List UInt8) :
    readTrace bytes = (bytes.splitOn lineFeed).filterMap onLine? := by
  have hline (line : Line) : ofLine? (lineText line) = onLine? line.bytes := rfl
  unfold readTrace
  simp only [hline]
  induction bytes using lines_induction with
  | last line hfree =>
    rw [Line.cut_of_not_mem hfree, List.splitOn_eq_singleton hfree]
    split
    · rename_i hempty
      subst hempty
      rfl
    · rfl
  | ended line rest hfree ih =>
    rw [Line.cut_append_lineFeed hfree, List.splitOn_append_cons_self,
      List.splitOn_eq_singleton hfree, List.singleton_append, List.filterMap_cons,
      List.filterMap_cons, ih]

theorem readTrace_append (before after : List UInt8) :
    readTrace (before ++ lineFeed :: after) = readTrace before ++ readTrace after := by
  simp only [readTrace_eq, List.splitOn_append_cons_self, List.filterMap_append]

/-- A line is a call just if it is made of the parts of one. A trace gives the calls of
the lines between its line feeds, in order; a line feed at the end of a line changes
nothing, and what stands before a line feed does not change what is read behind it. -/
theorem a_trace_gives_the_calls_that_its_lines_spell :
    (∀ line call, ofLine? line = some call ↔
      ∃ parts : CallLine, parts.text = line ∧ parts.Tells call) ∧
    (∀ bytes, readTrace bytes = (bytes.splitOn lineFeed).filterMap onLine?) ∧
    (∀ line, onLine? (line ++ [lineFeed]) = onLine? line) ∧
    ∀ before after, readTrace (before ++ lineFeed :: after) =
      readTrace before ++ readTrace after := by
  refine ⟨?_, readTrace_eq, onLine?_lineFeed, readTrace_append⟩
  exact fun line call => ofLine?_eq_some_iff

/-- Behind a line of broken characters a call is found. -/
example : readTrace ([0x22, 0x81, 0xE1, 0x0D] ++ lineFeed ::
    Text.bytesOf "00401001  e8fa  CALL  FUN_00402000\r\n") =
      [{ address := 0x401001, target := "FUN_00402000" }] := by
  decide +kernel

end BinaryAtlas.CallRecord
