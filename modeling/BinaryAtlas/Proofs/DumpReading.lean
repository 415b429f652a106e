-- The laws of reading a dump. The scan and the reader cut the bytes into the
-- same lines, whatever the bytes are: the scan finds the last marker of each
-- address where cutting has it, and the reader that goes there gets the lines
-- after it, wherever earlier look-ups have left it.
import BinaryAtlas.Proofs.DumpBlocks
import Mathlib.Data.List.TakeWhile

namespace BinaryAtlas

/-! ## Marker lines -/

/-- The packed deltas of a marker line: its text from behind the address and one
more byte on. They are empty where the text is shorter, or where that byte lies
inside a character. -/
def Line.packed (line : Line) : List Char :=
  (Text.dropBytes? (Marker.window + 1) line.text).getD []

/-- How many lines a marker line asks for. -/
def Line.codeSize (line : Line) : Nat := (Delta.unpack line.packed).length

theorem Line.dropReturn_append {first : List UInt8} (h : carriageReturn ∉ first)
    (rest : List UInt8) : dropReturn (first ++ rest) = first ++ dropReturn rest := by
  rcases List.eq_nil_or_concat rest with rfl | ⟨rest, b, rfl⟩
  · have hlast : ¬ first.getLast? = some carriageReturn := fun hl => h (List.mem_of_getLast? hl)
    simp [dropReturn, hlast]
  · unfold dropReturn
    rw [List.concat_eq_append, ← List.append_assoc, List.getLast?_concat, List.getLast?_concat]
    split
    · rw [List.dropLast_concat, List.dropLast_concat]
    · rw [List.append_assoc]

namespace Marker

/-- The text of a marker line begins as its bytes do. -/
theorem text_of_marks {address : UInt32} {line : Line} (h : Marks address line.bytes) :
    ∃ digits tail, line.text = start ++ digits ++ tail ∧ digits.length = addressDigits := by
  obtain ⟨digits, rest, hbytes, hlength, hvalue⟩ := h
  have hreturn : carriageReturn ∉ Text.encode (start ++ digits) := by
    intro hmem
    rcases List.mem_append.mp (Text.asciiByte_mem_encode (c := '\r') (by decide) hmem) with hc | hc
    · exact absurd hc (by decide)
    · exact absurd (Text.isHexDigit_of_digitsValue? hvalue _ hc) (by decide)
  have hdecode (rest : List UInt8) : Text.decodeLossy (Text.encode (start ++ digits) ++ rest) =
      start ++ digits ++ Text.decodeLossy rest := by
    unfold Text.decodeLossy Text.scan
    rw [Text.scanFrom_encode, List.map_append, List.map_map]
    simp [Function.comp_def]
  unfold Line.text
  rw [hbytes, Line.dropReturn_append hreturn]
  split
  · exact ⟨digits, _, hdecode _, hlength⟩
  · exact ⟨digits, _, hdecode _, hlength⟩

/-- The reader takes every marker line of the scan for one. -/
theorem packed?_of_marks {address : UInt32} {line : Line} (h : Marks address line.bytes) :
    packed? line.text = some line.packed := by
  obtain ⟨digits, tail, htext, hlength⟩ := text_of_marks h
  have hstarts : start.isPrefixOf line.text = true := by
    rw [htext, List.append_assoc]
    exact List.isPrefixOf_iff_prefix.mpr (List.prefix_append _ _)
  have hwide : window ≤ Text.byteLength line.text := by
    have hle := Text.length_le_byteLength line.text
    rw [htext, List.length_append, List.length_append, hlength] at hle
    rw [htext]
    exact Nat.le_trans (Nat.le_add_right _ _) hle
  unfold packed?
  rw [if_pos ⟨hstarts, hwide⟩]
  rfl

end Marker

/-- The block at a line that is taken for a marker. -/
theorem CodeBlock.read?_of_packed? {marker : Line}
    (h : Marker.packed? marker.text = some marker.packed) {address : UInt32} (after : List Line) :
    CodeBlock.read? address (marker :: after) =
      if marker.codeSize ≤ after.length then
        some { address
               lines := (after.take marker.codeSize).map fun line => .ofList line.text
               addresses := Delta.toAddresses address (Delta.unpack marker.packed) }
      else none := by
  have hlength (base : UInt32) (deltas : List Int32) :
      (Delta.toAddresses base deltas).length = deltas.length := by
    induction deltas generalizing base with
    | nil => rfl
    | cons delta deltas ih => rw [Delta.toAddresses, List.length_cons, ih, List.length_cons]
  simp only [CodeBlock.read?, h, hlength, List.length_take]
  unfold Line.codeSize
  split
  · rw [if_pos (by omega)]
  · rw [if_neg (by omega)]

/-! ## The last marker of an address -/

/-- The lines of a dump, cut at the last marker of an address. -/
structure LastMarker (bytes : List UInt8) (address : UInt32) (before : List Line) (marker : Line)
    (after : List Line) : Prop where
  lines : Line.cut bytes = before ++ marker :: after
  marks : Marker.Marks address marker.bytes
  later : ∀ line ∈ after, ¬ Marker.Marks address line.bytes

/-- The scan takes the line for a marker of the address. -/
def Line.isMarkerOf (address : UInt32) (line : Line) : Bool :=
  Marker.address? (line.bytes.take Marker.window) == some address

theorem Line.isMarkerOf_iff {address : UInt32} {line : Line} :
    line.isMarkerOf address = true ↔ Marker.Marks address line.bytes := by
  rw [isMarkerOf, beq_iff_eq, Marker.address?_eq_some_iff]

theorem exists_lastMarker_iff {bytes : List UInt8} {address : UInt32} :
    (∃ before marker after, LastMarker bytes address before marker after) ↔
      ∃ line ∈ Line.cut bytes, Marker.Marks address line.bytes := by
  constructor
  · rintro ⟨before, marker, after, h⟩
    exact ⟨marker, by simp [h.lines], h.marks⟩
  · rintro ⟨line, hline, hmarks⟩
    cases hlast : ((Line.cut bytes).filter (·.isMarkerOf address)).getLast? with
    | none =>
      have hnone := List.filter_eq_nil_iff.mp (List.getLast?_eq_none_iff.mp hlast) line hline
      exact absurd (Line.isMarkerOf_iff.mpr hmarks) hnone
    | some last =>
      obtain ⟨before, after, hlines, hmarks, hlater⟩ := Dump.split_of_getLast?_filter hlast
      exact ⟨before, last, after, hlines, Line.isMarkerOf_iff.mp hmarks,
        fun l hl h => hlater l hl (Line.isMarkerOf_iff.mpr h)⟩

namespace Dump

/-- Only markers put an address into the index. -/
theorem offset?_eq_none {bytes : List UInt8} {address : UInt32}
    (h : ∀ line ∈ Line.cut bytes, ¬ Marker.Marks address line.bytes) :
    (ofBytes bytes).offset? address = none := by
  unfold offset?
  rw [index_ofBytes, foldl_noteLine_of_ne]
  · exact Std.ExtTreeMap.getElem?_empty
  · intro entry hentry hmarker
    obtain ⟨place, hplace, rfl⟩ := List.mem_map.mp hentry
    exact h place.2 (Line.mem_of_mem_positioned hplace) (Marker.address?_eq_some_iff.mp hmarker)

/-- The index has the place where the last marker begins. -/
theorem offset?_of_lastMarker {bytes : List UInt8} {address : UInt32} {before after : List Line}
    {marker : Line} (h : LastMarker bytes address before marker after) :
    (ofBytes bytes).offset? address = some (Line.extent before) :=
  offset?_of_cut h.lines (Marker.address?_eq_some_iff.mpr h.marks) fun line hline hmarker =>
    h.later line hline (Marker.address?_eq_some_iff.mp hmarker)

theorem offset?_eq_some_iff {bytes : List UInt8} {address : UInt32} {offset : Nat} :
    (ofBytes bytes).offset? address = some offset ↔ ∃ before marker after,
      LastMarker bytes address before marker after ∧ offset = Line.extent before := by
  constructor
  · intro h
    by_cases hmarks : ∃ line ∈ Line.cut bytes, Marker.Marks address line.bytes
    · obtain ⟨before, marker, after, hlast⟩ := exists_lastMarker_iff.mpr hmarks
      rw [offset?_of_lastMarker hlast] at h
      exact ⟨before, marker, after, hlast, (Option.some.inj h).symm⟩
    · rw [offset?_eq_none fun line hline hm => hmarks ⟨line, hline, hm⟩] at h
      cases h
  · rintro ⟨before, marker, after, hlast, rfl⟩
    exact offset?_of_lastMarker hlast

theorem mem_addresses_iff {bytes : List UInt8} {address : UInt32} :
    address ∈ (ofBytes bytes).addresses ↔
      ∃ line ∈ Line.cut bytes, Marker.Marks address line.bytes := by
  rw [addresses, Std.ExtTreeMap.mem_keys, Std.ExtTreeMap.mem_iff_isSome_getElem?,
    Option.isSome_iff_exists, ← exists_lastMarker_iff]
  constructor
  · rintro ⟨offset, h⟩
    obtain ⟨before, marker, after, hlast, -⟩ := offset?_eq_some_iff.mp h
    exact ⟨before, marker, after, hlast⟩
  · rintro ⟨before, marker, after, hlast⟩
    exact ⟨_, offset?_of_lastMarker hlast⟩

theorem pairwise_addresses (dump : Dump) : dump.addresses.Pairwise (· < ·) :=
  dump.index.ordered_keys.imp Std.compare_eq_lt.mp

/-- The block of an address is what stands after its last marker. -/
theorem block?_of_lastMarker {bytes : List UInt8} {address : UInt32} {before after : List Line}
    {marker : Line} (h : LastMarker bytes address before marker after) :
    (ofBytes bytes).block? address =
      if marker.codeSize ≤ after.length then
        some { address
               lines := (after.take marker.codeSize).map fun line => .ofList line.text
               addresses := Delta.toAddresses address (Delta.unpack marker.packed) }
      else none := by
  unfold block?
  rw [offset?_of_lastMarker h]
  simp only [bytes_ofBytes, Line.cut_drop_extent h.lines]
  exact CodeBlock.read?_of_packed? (Marker.packed?_of_marks h.marks) after

/-! ## A reader that moves

A reader stands at a place in the bytes, the number of bytes before it. It reads
line after line from there, and a look-up leaves it where it has read last. -/

/-- The next line from a place on, and the place behind it. -/
def nextLine? (bytes : List UInt8) (place : Nat) : Option (Line × Nat) :=
  let rest := bytes.drop place
  let line := rest.takeWhile (· != lineFeed)
  if line.length < rest.length then
    some ({ bytes := line, ended := true }, place + line.length + 1)
  else if line.isEmpty then none
  else some ({ bytes := line, ended := false }, place + line.length)

/-- The next lines from a place on, so many of them, and the place behind them.
There are none if the bytes end before the last of them. -/
def nextLines? (bytes : List UInt8) : Nat → Nat → Option (List Line) × Nat
  | 0, place => (some [], place)
  | count + 1, place =>
    match nextLine? bytes place with
    | none => (none, place)
    | some (line, place) =>
      let (lines, place) := nextLines? bytes count place
      (lines.map (line :: ·), place)

/-- A look-up by a reader: the block of an address, and where the reader stands
then. -/
def lookUp (dump : Dump) (address : UInt32) (place : Nat) : Option CodeBlock × Nat :=
  match dump.offset? address with
  | none => (none, place)
  | some offset =>
    match nextLine? dump.bytes offset with
    | none => (none, offset)
    | some (marker, place) =>
      match Marker.packed? marker.text with
      | none => (none, place)
      | some packed =>
        let addresses := Delta.toAddresses address (Delta.unpack packed)
        let (code, place) := nextLines? dump.bytes addresses.length place
        (code.map fun code => { address, lines := code.map (.ofList ·.text), addresses }, place)

/-- Where a reader stands after look-ups. The scan leaves it behind all bytes. -/
def placeAfter (dump : Dump) (asked : List UInt32) : Nat :=
  asked.foldl (fun place address => (dump.lookUp address place).2) dump.bytes.length

/-- The reader reads the lines that cutting gives. -/
theorem nextLine?_eq (bytes : List UInt8) (place : Nat) :
    nextLine? bytes place =
      (Line.cut (bytes.drop place)).head?.map fun line => (line, place + line.width) := by
  unfold nextLine?
  generalize bytes.drop place = rest
  have hfree {line : List UInt8} (h : lineFeed ∉ line) : ∀ b ∈ line, (b != lineFeed) = true := by
    intro b hb
    rw [bne_iff_ne]
    rintro rfl
    exact h hb
  cases hcut : Line.cut rest with
  | nil =>
    cases rest with
    | nil => rfl
    | cons b rest => exact absurd hcut (Line.cut_ne_nil (List.cons_ne_nil b rest))
  | cons line lines =>
    obtain ⟨bytes, ended⟩ := line
    obtain ⟨hline, ⟨rfl, tail, rfl, -⟩ | ⟨rfl, rfl, -⟩⟩ := Line.cut_eq_cons hcut
    · have htake : (bytes ++ lineFeed :: tail).takeWhile (· != lineFeed) = bytes := by
        rw [List.takeWhile_append_of_pos (hfree hline)]
        simp
      simp [htake, Line.width, Nat.add_assoc]
    · have htake : rest.takeWhile (· != lineFeed) = rest :=
        List.takeWhile_eq_self_iff.mpr (hfree hline)
      have hne : rest ≠ [] := by
        rintro rfl
        cases hcut
      simp [htake, Line.width, hne]

/-- Behind the next line the later ones are left. -/
theorem cut_drop_width {bytes : List UInt8} {place : Nat} {line : Line} {lines : List Line}
    (h : Line.cut (bytes.drop place) = line :: lines) :
    Line.cut (bytes.drop (place + line.width)) = lines := by
  have hcut : Line.cut (bytes.drop place) = [line] ++ lines := h
  have hdrop := Line.cut_drop_extent hcut
  rwa [List.drop_drop] at hdrop

theorem fst_nextLines? (bytes : List UInt8) (count place : Nat) :
    (nextLines? bytes count place).1 =
      if count ≤ (Line.cut (bytes.drop place)).length then
        some ((Line.cut (bytes.drop place)).take count)
      else none := by
  induction count generalizing place with
  | zero => simp [nextLines?]
  | succ count ih =>
    rw [nextLines?, nextLine?_eq]
    cases hcut : Line.cut (bytes.drop place) with
    | nil => simp
    | cons line lines =>
      have hrest := cut_drop_width hcut
      simp only [List.head?_cons, Option.map_some, ih, hrest, List.length_cons,
        Nat.add_le_add_iff_right, List.take_succ_cons]
      split <;> rfl

/-- A look-up gives the block, wherever the reader stands before it. -/
theorem fst_lookUp (dump : Dump) (address : UInt32) (place : Nat) :
    (dump.lookUp address place).1 = dump.block? address := by
  unfold lookUp block?
  cases dump.offset? address with
  | none => rfl
  | some offset =>
    simp only [nextLine?_eq]
    cases hcut : Line.cut (dump.bytes.drop offset) with
    | nil => rfl
    | cons marker lines =>
      have hrest := cut_drop_width hcut
      simp only [List.head?_cons, Option.map_some, CodeBlock.read?]
      cases Marker.packed? marker.text with
      | none => rfl
      | some packed =>
        simp only [fst_nextLines?, hrest, List.length_take]
        split
        · rw [if_pos (by omega)]
          rfl
        · rw [if_neg (by omega)]
          rfl

/-! ## The whole reading -/

/-- There is no block without a marker, nor where too few lines follow the last. -/
theorem block?_eq_none_iff {bytes : List UInt8} {address : UInt32} :
    (ofBytes bytes).block? address = none ↔
      address ∉ (ofBytes bytes).addresses ∨ ∃ before marker after,
        LastMarker bytes address before marker after ∧ after.length < marker.codeSize := by
  rw [mem_addresses_iff, ← exists_lastMarker_iff]
  constructor
  · intro hnone
    by_cases hmarked : ∃ before marker after, LastMarker bytes address before marker after
    · obtain ⟨before, marker, after, hlast⟩ := hmarked
      refine .inr ⟨before, marker, after, hlast, Nat.lt_of_not_le fun hfull => ?_⟩
      rw [block?_of_lastMarker hlast, if_pos hfull] at hnone
      cases hnone
    · exact .inl hmarked
  · rintro (hunmarked | ⟨before, marker, after, hlast, hshort⟩)
    · unfold block?
      rw [offset?_eq_none fun line hline hmarks =>
        hunmarked (exists_lastMarker_iff.mpr ⟨line, hline, hmarks⟩)]
    · rw [block?_of_lastMarker hlast, if_neg (Nat.not_le.mpr hshort)]

/-- Whatever the bytes are, the addresses of a dump are those of its marker
lines, each at its last marker. A look-up after any others gives the lines
behind that marker, as many as the marker asks for, or nothing where the
address has no marker or too few lines follow the last one. -/
theorem a_dump_is_read_from_its_last_markers (bytes : List UInt8) :
    (ofBytes bytes).addresses.Pairwise (· < ·) ∧ ∀ address,
      (address ∈ (ofBytes bytes).addresses ↔
        ∃ line ∈ Line.cut bytes, Marker.Marks address line.bytes) ∧
      (∀ offset, (ofBytes bytes).offset? address = some offset ↔ ∃ before marker after,
        LastMarker bytes address before marker after ∧ offset = Line.extent before) ∧
      ∀ asked,
        (((ofBytes bytes).lookUp address ((ofBytes bytes).placeAfter asked)).1 = none ↔
          address ∉ (ofBytes bytes).addresses ∨ ∃ before marker after,
            LastMarker bytes address before marker after ∧ after.length < marker.codeSize) ∧
        ∀ before marker after, LastMarker bytes address before marker after →
          marker.codeSize ≤ after.length →
          ((ofBytes bytes).lookUp address ((ofBytes bytes).placeAfter asked)).1 = some {
            address
            lines := (after.take marker.codeSize).map fun line => .ofList line.text
            addresses := Delta.toAddresses address (Delta.unpack marker.packed) } := by
  refine ⟨pairwise_addresses _, fun address => ⟨mem_addresses_iff, fun offset =>
    offset?_eq_some_iff, fun asked => ?_⟩⟩
  simp only [fst_lookUp]
  refine ⟨block?_eq_none_iff, fun before marker after hlast hfull => ?_⟩
  rw [block?_of_lastMarker hlast, if_pos hfull]

end Dump

end BinaryAtlas
