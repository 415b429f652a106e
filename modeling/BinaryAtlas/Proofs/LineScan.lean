-- The laws of lines. A text that ends with a line feed has lines of its own,
-- whatever follows it; and the scanner sees the lines that cutting gives, each
-- at its position, whatever chunks the text comes in.
import BinaryAtlas.Dump.Line
import Mathlib.Data.List.TakeWhile

namespace BinaryAtlas

/-! ## The first line -/

section

variable {line : List UInt8}

theorem bne_of_not_mem (h : lineFeed ∉ line) : ∀ b ∈ line, (b != lineFeed) = true :=
  fun _ hb => bne_iff_ne.mpr fun he => h (he ▸ hb)

theorem takeWhile_of_not_mem (h : lineFeed ∉ line) : line.takeWhile (· != lineFeed) = line :=
  List.takeWhile_eq_self_iff.mpr (bne_of_not_mem h)

theorem dropWhile_of_not_mem (h : lineFeed ∉ line) : line.dropWhile (· != lineFeed) = [] :=
  List.dropWhile_eq_nil_iff.mpr (bne_of_not_mem h)

theorem takeWhile_lineFeed (h : lineFeed ∉ line) (rest : List UInt8) :
    (line ++ lineFeed :: rest).takeWhile (· != lineFeed) = line := by
  rw [List.takeWhile_append, takeWhile_of_not_mem h]
  simp

theorem dropWhile_lineFeed (h : lineFeed ∉ line) (rest : List UInt8) :
    (line ++ lineFeed :: rest).dropWhile (· != lineFeed) = lineFeed :: rest := by
  rw [List.dropWhile_append, dropWhile_of_not_mem h]
  simp

end

/-- A text is a line without a line feed, or its first line and the text after it. -/
theorem lines_induction {P : List UInt8 → Prop} (last : ∀ line, lineFeed ∉ line → P line)
    (ended : ∀ line rest, lineFeed ∉ line → P rest → P (line ++ lineFeed :: rest))
    (bytes : List UInt8) : P bytes := by
  by_cases hmem : lineFeed ∈ bytes
  · obtain ⟨line, rest, hbytes, hfree⟩ := List.eq_append_cons_of_mem hmem
    have hlt : rest.length < bytes.length := by
      rw [hbytes, List.length_append, List.length_cons]
      omega
    rw [hbytes]
    exact ended line rest hfree (lines_induction last ended rest)
  · exact last bytes hmem
termination_by bytes.length
decreasing_by exact hlt

/-! ## Cutting -/

namespace Line

theorem cut_cons (b : UInt8) (bytes : List UInt8) : cut (b :: bytes) = consByte b (cut bytes) := rfl

theorem consByte_ne_nil (b : UInt8) (lines : List Line) : consByte b lines ≠ [] := by
  unfold consByte
  split
  · simp
  · split <;> simp

theorem cut_ne_nil {bytes : List UInt8} (h : bytes ≠ []) : cut bytes ≠ [] := by
  cases bytes with
  | nil => exact absurd rfl h
  | cons b bytes => exact consByte_ne_nil b (cut bytes)

/-- The first line feed ends the first line. -/
theorem cut_append_lineFeed {line : List UInt8} (h : lineFeed ∉ line) (rest : List UInt8) :
    cut (line ++ lineFeed :: rest) = { bytes := line, ended := true } :: cut rest := by
  induction line with
  | nil =>
    rw [List.nil_append, cut_cons]
    unfold consByte
    rw [if_pos rfl]
  | cons b line ih =>
    rw [List.mem_cons, not_or] at h
    rw [List.cons_append, cut_cons, ih h.2]
    unfold consByte
    rw [if_neg (Ne.symm h.1)]

theorem cut_of_not_mem {line : List UInt8} (h : lineFeed ∉ line) :
    cut line = if line = [] then [] else [{ bytes := line, ended := false }] := by
  induction line with
  | nil => rfl
  | cons b line ih =>
    rw [List.mem_cons, not_or] at h
    rw [cut_cons, ih h.2, if_neg (List.cons_ne_nil b line)]
    unfold consByte
    rw [if_neg (Ne.symm h.1)]
    by_cases hline : line = []
    · subst hline
      rfl
    · rw [if_neg hline]

/-- The first line of a text, and the lines after it. -/
theorem cut_eq_cons {bytes : List UInt8} {line : Line} {lines : List Line}
    (h : cut bytes = line :: lines) :
    lineFeed ∉ line.bytes ∧ ((line.ended = true ∧ ∃ rest,
        bytes = line.bytes ++ lineFeed :: rest ∧ cut rest = lines) ∨
      (line.ended = false ∧ bytes = line.bytes ∧ lines = [])) := by
  cases bytes using lines_induction with
  | ended first rest hfree _ =>
    rw [cut_append_lineFeed hfree] at h
    obtain ⟨rfl, rfl⟩ := List.cons.inj h
    exact ⟨hfree, .inl ⟨rfl, rest, rfl, rfl⟩⟩
  | last first hfree =>
    rw [cut_of_not_mem hfree] at h
    split at h
    · cases h
    · obtain ⟨rfl, rfl⟩ := List.cons.inj h
      exact ⟨hfree, .inr ⟨rfl, rfl, rfl⟩⟩

/-- Bytes that do not end inside a line. -/
def EndsLine (bytes : List UInt8) : Prop := bytes = [] ∨ bytes.getLast? = some lineFeed

theorem endsLine_append {a b : List UInt8} (ha : EndsLine a) (hb : EndsLine b) :
    EndsLine (a ++ b) := by
  rcases hb with rfl | hb
  · rw [List.append_nil]
    exact ha
  · right
    rw [List.getLast?_append, hb]
    rfl

theorem cut_append {before : List UInt8} (h : EndsLine before) (rest : List UInt8) :
    cut (before ++ rest) = cut before ++ cut rest := by
  induction before with
  | nil => rfl
  | cons b before ih =>
    rw [List.cons_append, cut_cons, cut_cons]
    by_cases hempty : before = []
    · subst hempty
      have hb : b = lineFeed := by
        rcases h with h | h
        · cases h
        · simpa using h
      subst hb
      unfold consByte
      rw [if_pos rfl, if_pos rfl]
      rfl
    · have hends : EndsLine before := by
        right
        rcases h with h | h
        · cases h
        · rw [List.getLast?_cons] at h
          cases hl : before.getLast? with
          | none => exact absurd (List.getLast?_eq_none_iff.mp hl) hempty
          | some last => simpa [hl] using h
      rw [ih hends]
      unfold consByte
      split
      · rfl
      · have hne := cut_ne_nil hempty
        cases hc : cut before with
        | nil => exact absurd hc hne
        | cons line lines => rfl

/-! ## Positions -/

/-- The number of bytes of lines that stand one after the other. -/
def extent : List Line → Nat
  | [] => 0
  | line :: lines => line.width + extent lines

theorem extent_consByte (b : UInt8) (lines : List Line) :
    extent (consByte b lines) = 1 + extent lines := by
  unfold consByte
  split
  · simp [extent, width]
  · split
    · simp [extent, width]
    · simp [extent, width]
      omega

theorem extent_cut (bytes : List UInt8) : extent (cut bytes) = bytes.length := by
  induction bytes with
  | nil => rfl
  | cons b bytes ih => rw [cut_cons, extent_consByte, ih, List.length_cons, Nat.add_comm]

theorem positioned_append (start : Nat) (a b : List Line) :
    positioned start (a ++ b) = positioned start a ++ positioned (start + extent a) b := by
  induction a generalizing start with
  | nil => rfl
  | cons line a ih => simp [positioned, extent, ih, Nat.add_assoc]

/-- Where a line ends, the rest of the lines begins. -/
theorem cut_drop_extent {bytes : List UInt8} {before rest : List Line}
    (h : cut bytes = before ++ rest) : cut (bytes.drop (extent before)) = rest := by
  induction before generalizing bytes with
  | nil => exact h
  | cons line before ih =>
    rw [extent, ← List.drop_drop]
    obtain ⟨-, ⟨hended, tail, rfl, htail⟩ | ⟨hended, rfl, hnone⟩⟩ := cut_eq_cons h
    · have hdrop : (line.bytes ++ lineFeed :: tail).drop line.width = tail := by
        rw [width, hended, if_pos rfl, List.append_cons]
        exact List.drop_left' (by simp)
      rw [hdrop]
      exact ih htail
    · obtain ⟨rfl, rfl⟩ := List.append_eq_nil_iff.mp hnone
      have hdrop : line.bytes.drop line.width = [] := by
        simp [width, hended]
      rw [hdrop, List.drop_nil]
      rfl

theorem mem_of_mem_positioned {start : Nat} {lines : List Line} {entry : Nat × Line}
    (h : entry ∈ positioned start lines) : entry.2 ∈ lines := by
  induction lines generalizing start with
  | nil => cases h
  | cons line lines ih =>
    rcases List.mem_cons.mp h with rfl | h
    · exact List.mem_cons_self
    · exact List.mem_cons_of_mem line (ih h)

/-- A line as the scanner shows it. -/
def shown (window : Nat) (entry : Nat × Line) : Nat × List UInt8 :=
  (entry.1, entry.2.bytes.take window)

end Line

/-! ## Scanning -/

namespace LineScanner

/-- One byte. -/
def takeByte (window : Nat) (s : LineScanner) (b : UInt8) : LineScanner :=
  if b = lineFeed then s.endLine else s.extend window [b]

theorem extend_nil (window : Nat) (s : LineScanner) : s.extend window [] = s := by
  simp [extend]

theorem extend_append (window : Nat) (s : LineScanner) (a b : List UInt8) :
    (s.extend window a).extend window b = s.extend window (a ++ b) := by
  have hroom : window - (s.kept ++ a.take (window - s.kept.length)).length =
      window - s.kept.length - a.length := by
    rw [List.length_append, List.length_take]
    omega
  simp only [extend, hroom]
  simp [List.take_append, Nat.add_assoc]

theorem foldl_takeByte_of_not_mem {line : List UInt8} (h : lineFeed ∉ line) (window : Nat)
    (s : LineScanner) : line.foldl (takeByte window) s = s.extend window line := by
  induction line generalizing s with
  | nil => rw [extend_nil, List.foldl_nil]
  | cons b line ih =>
    rw [List.mem_cons, not_or] at h
    rw [List.foldl_cons, ih h.2, takeByte, if_neg (Ne.symm h.1), extend_append]
    rfl

theorem feed_of_not_mem (window : Nat) (s : LineScanner) {line : List UInt8}
    (h : lineFeed ∉ line) : feed window s line = s.extend window line := by
  unfold feed
  split
  · rw [takeWhile_of_not_mem h]
  · rename_i hrest
    rw [dropWhile_of_not_mem h] at hrest
    cases hrest

theorem feed_lineFeed (window : Nat) (s : LineScanner) {line : List UInt8} (h : lineFeed ∉ line)
    (rest : List UInt8) : feed window s (line ++ lineFeed :: rest) =
      feed window (s.extend window line).endLine rest := by
  rw [feed]
  split
  · rename_i hnone
    rw [dropWhile_lineFeed h] at hnone
    cases hnone
  · rename_i hrest
    rw [dropWhile_lineFeed h] at hrest
    obtain ⟨-, rfl⟩ := List.cons.inj hrest
    rw [takeWhile_lineFeed h]

/-- A chunk at once comes to its bytes one by one. -/
theorem feed_eq_foldl (window : Nat) (s : LineScanner) (chunk : List UInt8) :
    feed window s chunk = chunk.foldl (takeByte window) s := by
  induction chunk using lines_induction generalizing s with
  | last line hfree => rw [feed_of_not_mem window s hfree, foldl_takeByte_of_not_mem hfree]
  | ended line rest hfree ih =>
    rw [feed_lineFeed window s hfree, ih, List.foldl_append, List.foldl_cons,
      foldl_takeByte_of_not_mem hfree, takeByte, if_pos rfl]

/-- The scanner at the start of a line sees that line and all after it. -/
theorem finish_foldl (window : Nat) (bytes : List UInt8) (start : Nat)
    (seen : List (Nat × List UInt8)) :
    (bytes.foldl (takeByte window)
      { position := start, lineStart := start, kept := [], seen }).finish =
      seen.reverse ++ (Line.positioned start (Line.cut bytes)).map (Line.shown window) := by
  induction bytes using lines_induction generalizing start seen with
  | last line hfree =>
    rw [foldl_takeByte_of_not_mem hfree, Line.cut_of_not_mem hfree]
    by_cases hempty : line = []
    · subst hempty
      simp [extend, finish, Line.positioned]
    · have hlength := List.length_pos_iff.mpr hempty
      simp [extend, finish, hempty, hlength, Line.positioned, Line.shown]
  | ended line rest hfree ih =>
    rw [List.foldl_append, List.foldl_cons, foldl_takeByte_of_not_mem hfree, takeByte, if_pos rfl,
      Line.cut_append_lineFeed hfree]
    simp only [extend, endLine, List.length_nil, Nat.sub_zero, List.nil_append]
    rw [ih]
    simp [Line.positioned, Line.shown, Line.width, Nat.add_assoc]

end LineScanner

/-- The scanner sees the lines of the text, in any chunks. -/
theorem linePrefixes_eq (window : Nat) (chunks : List (List UInt8)) :
    linePrefixes window chunks =
      (Line.positioned 0 (Line.cut chunks.flatten)).map (Line.shown window) := by
  have hfeed : LineScanner.feed window = fun s chunk =>
      chunk.foldl (LineScanner.takeByte window) s := by
    funext s chunk
    exact LineScanner.feed_eq_foldl window s chunk
  unfold linePrefixes
  rw [hfeed, ← List.foldl_flatten]
  exact LineScanner.finish_foldl window chunks.flatten 0 []

theorem flatten_chunksOf {capacity : Nat} (h : 0 < capacity) (bytes : List UInt8) :
    (chunksOf capacity bytes).flatten = bytes := by
  induction bytes using chunksOf.induct capacity with
  | case1 bytes hend =>
    rw [chunksOf, dif_pos hend]
    rcases hend with rfl | rfl
    · cases h
    · rfl
  | case2 bytes hend ih =>
    rw [chunksOf, dif_neg hend, List.flatten_cons, ih, List.take_append_drop]

end BinaryAtlas
