-- The laws of lines read through a buffer. The reader shows some bytes of the
-- text that is left, as many as it likes; the scanner uses them up to the
-- first line feed, and looks again. However the bytes come, it sees each line
-- of the text once, where the line begins.
import BinaryAtlas.Proofs.LineScan

namespace BinaryAtlas

/-! ## Lines by their places -/

/-- A line begins at the start of the text, and behind every line feed. -/
def startsLine (bytes : List UInt8) (place : Nat) : Bool :=
  place == 0 || bytes[place - 1]? == some lineFeed

/-- The places of the text where a line begins. Behind a line feed at its end
there is none. -/
def lineStarts (bytes : List UInt8) : List Nat :=
  (List.range bytes.length).filter (startsLine bytes)

/-- The bytes from a place to the next line feed, or to the end of the text. -/
def lineFrom (bytes : List UInt8) (place : Nat) : List UInt8 :=
  (bytes.drop place).takeWhile (· != lineFeed)

/-- The lines of a text as a window shows them: where each one begins, and its
first bytes. -/
def shownLines (window : Nat) (bytes : List UInt8) : List (Nat × List UInt8) :=
  (lineStarts bytes).map fun place => (place, (lineFrom bytes place).take window)

theorem startsLine_inside {bytes : List UInt8} (h : lineFeed ∉ bytes) (rest : List UInt8)
    {place : Nat} (hplace : place < bytes.length) :
    startsLine (bytes ++ rest) (place + 1) = false := by
  have hbyte : (bytes ++ rest)[place]? = some bytes[place] := by
    rw [List.getElem?_append_left hplace, List.getElem?_eq_getElem hplace]
  have hne : bytes[place] ≠ lineFeed := fun he => h (he ▸ List.getElem_mem hplace)
  simp [startsLine, hbyte, hne]

theorem startsLine_behind (line rest : List UInt8) (place : Nat) :
    startsLine (line ++ lineFeed :: rest) (line.length + 1 + place) = startsLine rest place := by
  cases place with
  | zero => simp [startsLine]
  | succ place =>
    have hbyte : (line ++ lineFeed :: rest)[line.length + 1 + place]? = rest[place]? := by
      rw [List.getElem?_append_right (by omega),
        show line.length + 1 + place - line.length = place + 1 by omega, List.getElem?_cons_succ]
    simp [startsLine, ← Nat.add_assoc, hbyte]

/-- Inside a line no other begins. -/
theorem filter_startsLine_line {line : List UInt8} (h : lineFeed ∉ line) (rest : List UInt8) :
    (List.range (line.length + 1)).filter (startsLine (line ++ rest)) = [0] := by
  rw [List.range_succ_eq_map, List.filter_cons_of_pos rfl, List.filter_map]
  have hnone : (List.range line.length).filter (startsLine (line ++ rest) ∘ Nat.succ) = [] := by
    rw [List.filter_eq_nil_iff]
    intro place hplace
    simp [startsLine_inside h rest (List.mem_range.mp hplace)]
  rw [hnone, List.map_nil]

theorem lineStarts_append {line : List UInt8} (h : lineFeed ∉ line) (rest : List UInt8) :
    lineStarts (line ++ lineFeed :: rest) =
      0 :: (lineStarts rest).map (line.length + 1 + ·) := by
  have hlength : (line ++ lineFeed :: rest).length = line.length + 1 + rest.length := by
    simp only [List.length_append, List.length_cons]
    omega
  have hrest : (startsLine (line ++ lineFeed :: rest)) ∘ (line.length + 1 + ·) =
      startsLine rest := funext (startsLine_behind line rest)
  rw [lineStarts, hlength, List.range_add, List.filter_append, filter_startsLine_line h,
    List.filter_map, hrest]
  rfl

theorem lineStarts_of_not_mem {line : List UInt8} (h : lineFeed ∉ line) :
    lineStarts line = if line = [] then [] else [0] := by
  rcases List.eq_nil_or_concat line with rfl | ⟨init, last, rfl⟩
  · rfl
  · have hinit : lineFeed ∉ init := fun hmem => h (by simp [hmem])
    rw [if_neg (by simp), lineStarts, List.concat_eq_append, List.length_append]
    exact filter_startsLine_line hinit [last]

theorem lineFrom_behind (line rest : List UInt8) (place : Nat) :
    lineFrom (line ++ lineFeed :: rest) (line.length + 1 + place) = lineFrom rest place := by
  rw [lineFrom, ← List.drop_drop, List.append_cons, List.drop_left' (by simp), lineFrom]

/-- The first line is shown, and the others as in the text behind it. -/
theorem shownLines_append (window : Nat) {line : List UInt8} (h : lineFeed ∉ line)
    (rest : List UInt8) : shownLines window (line ++ lineFeed :: rest) =
      (0, line.take window) ::
        (shownLines window rest).map fun entry => (line.length + 1 + entry.1, entry.2) := by
  have hfirst : lineFrom (line ++ lineFeed :: rest) 0 = line := takeWhile_lineFeed h rest
  simp only [shownLines, lineStarts_append h, List.map_cons, List.map_map, hfirst,
    Function.comp_def, lineFrom_behind]

/-- Cutting gives the lines that begin at their places. -/
theorem map_positioned_cut (window start : Nat) (bytes : List UInt8) :
    (Line.positioned start (Line.cut bytes)).map (Line.shown window) =
      (shownLines window bytes).map fun entry => (start + entry.1, entry.2) := by
  induction bytes using lines_induction generalizing start with
  | last line hfree =>
    have hall : lineFrom line 0 = line := takeWhile_of_not_mem hfree
    rw [Line.cut_of_not_mem hfree, shownLines, lineStarts_of_not_mem hfree]
    split
    · rfl
    · simp [Line.positioned, Line.shown, hall]
  | ended line rest hfree ih =>
    rw [Line.cut_append_lineFeed hfree, Line.positioned, List.map_cons, ih,
      shownLines_append window hfree]
    simp [Line.shown, Line.width, Nat.add_assoc]

namespace LineScanner

/-! ## One look -/

/-- One look into the buffer, with the number of bytes that it uses up: a line
with its line feed is seen, or all bytes belong to a line that goes on. -/
def look (window : Nat) (s : LineScanner) (buffer : List UInt8) : Nat × LineScanner :=
  let line := buffer.takeWhile (· != lineFeed)
  if line.length < buffer.length then (line.length + 1, (s.extend window line).endLine)
  else (line.length, s.extend window line)

theorem look_of_not_mem (window : Nat) (s : LineScanner) {buffer : List UInt8}
    (h : lineFeed ∉ buffer) : s.look window buffer = (buffer.length, s.extend window buffer) := by
  simp only [look, takeWhile_of_not_mem h, Nat.lt_irrefl, if_false]

theorem look_of_lineFeed (window : Nat) (s : LineScanner) {line : List UInt8}
    (h : lineFeed ∉ line) (rest : List UInt8) : s.look window (line ++ lineFeed :: rest) =
      (line.length + 1, (s.extend window line).endLine) := by
  have hlt : line.length < (line ++ lineFeed :: rest).length := by simp
  simp only [look, takeWhile_lineFeed h, hlt, if_true]

/-- A look uses up some of what it shows, and takes it byte by byte. -/
theorem look_takes (window : Nat) (s : LineScanner) {buffer : List UInt8} (hne : buffer ≠ []) :
    ∃ used rest, buffer = used ++ rest ∧ used ≠ [] ∧
      s.look window buffer = (used.length, used.foldl (takeByte window) s) := by
  cases buffer using lines_induction with
  | last _ hfree =>
    refine ⟨buffer, [], (List.append_nil buffer).symm, hne, ?_⟩
    rw [look_of_not_mem window s hfree, foldl_takeByte_of_not_mem hfree]
  | ended line rest hfree _ =>
    refine ⟨line ++ [lineFeed], rest, List.append_cons line lineFeed rest, by simp, ?_⟩
    rw [look_of_lineFeed window s hfree, List.foldl_append, foldl_takeByte_of_not_mem hfree]
    simp [takeByte]

/-! ## Readings -/

/-- A reading of the bytes that are left, look by look: from one scanner to the
last one. The buffer shows at least one byte, as long as there is one. -/
inductive Reading (window : Nat) : LineScanner → List UInt8 → LineScanner → Prop
  | done (s : LineScanner) : Reading window s [] s
  | look {s last : LineScanner} {buffer bytes : List UInt8} :
      buffer ≠ [] → buffer <+: bytes →
      Reading window (s.look window buffer).2 (bytes.drop (s.look window buffer).1) last →
      Reading window s bytes last

/-- A reading takes the bytes one by one, however many each look shows. -/
theorem Reading.eq_foldl {window : Nat} {s last : LineScanner} {bytes : List UInt8}
    (h : Reading window s bytes last) : last = bytes.foldl (takeByte window) s := by
  induction h with
  | done s => rfl
  | @look s last buffer bytes hne hshown hrest ih =>
    obtain ⟨used, left, rfl, -, hlook⟩ := look_takes window s hne
    obtain ⟨later, rfl⟩ := hshown
    rw [ih, hlook]
    simp only [List.append_assoc, List.drop_left, List.foldl_append]

/-- A chunk is read by looks at what is left of it, one for each line. -/
theorem reading_feed (window : Nat) (s : LineScanner) (chunk : List UInt8) {bytes : List UInt8}
    {last : LineScanner} (h : Reading window (feed window s chunk) bytes last) :
    Reading window s (chunk ++ bytes) last := by
  induction chunk using lines_induction generalizing s with
  | last line hfree =>
    rw [feed_of_not_mem window s hfree] at h
    by_cases hempty : line = []
    · subst hempty
      rwa [extend_nil] at h
    · apply Reading.look hempty (List.prefix_append line bytes)
      rw [look_of_not_mem window s hfree, List.drop_left]
      exact h
  | ended line rest hfree ih =>
    rw [feed_lineFeed window s hfree] at h
    apply Reading.look (by simp) (List.prefix_append (line ++ lineFeed :: rest) bytes)
    rw [look_of_lineFeed window s hfree, List.append_cons, List.append_assoc,
      List.drop_left' (by simp)]
    exact ih _ h

theorem reading_foldl_feed (window : Nat) (s : LineScanner) (chunks : List (List UInt8)) :
    Reading window s chunks.flatten (chunks.foldl (feed window) s) := by
  induction chunks generalizing s with
  | nil => exact .done s
  | cons chunk chunks ih => exact reading_feed window s chunk (ih (feed window s chunk))

end LineScanner

open LineScanner in
/-- However the bytes come, the scanner shows the lines of the text. -/
theorem every_reading_shows_the_lines (window : Nat) (bytes : List UInt8) :
    (∀ last, Reading window {} bytes last → last.finish = shownLines window bytes) ∧
      ∀ chunks : List (List UInt8), chunks.flatten = bytes →
        Reading window {} bytes (chunks.foldl (feed window) {}) ∧
          linePrefixes window chunks = shownLines window bytes := by
  have hall : ∀ last, Reading window {} bytes last → last.finish = shownLines window bytes := by
    intro last h
    rw [h.eq_foldl, finish_foldl, map_positioned_cut]
    simp
  refine ⟨hall, ?_⟩
  rintro chunks rfl
  have hchunks := reading_foldl_feed window {} chunks
  exact ⟨hchunks, hall _ hchunks⟩

/-- A line that goes over three chunks, an empty one at the end of a chunk, and
one without a line feed. -/
def brokenChunks : List (List UInt8) :=
  [[0x61, 0x62], [0x63], [0x64, 0x0A, 0x0A], [0x65, 0x66]]

theorem a_line_goes_over_three_chunks :
    brokenChunks.flatten = [0x61, 0x62, 0x63, 0x64, 0x0A, 0x0A, 0x65, 0x66] ∧
      linePrefixes 3 brokenChunks =
        shownLines 3 [0x61, 0x62, 0x63, 0x64, 0x0A, 0x0A, 0x65, 0x66] ∧
      linePrefixes 3 brokenChunks = [(0, [0x61, 0x62, 0x63]), (5, []), (6, [0x65, 0x66])] := by
  have hshown := ((every_reading_shows_the_lines 3 _).2 brokenChunks rfl).2
  exact ⟨rfl, hshown, hshown.trans (by decide)⟩

end BinaryAtlas
