-- The laws of a dump. What is written for a function is read back, whatever
-- stands before it, as long as it is the last that is written for its address:
-- the scan finds its marker, and the lines after the marker are its lines.
import BinaryAtlas.Proofs.LineScan
import BinaryAtlas.Proofs.Markers

namespace BinaryAtlas

/-! ## One block -/

namespace CodeBlock

/-- The block that is read where these lines were written. -/
def written (address : UInt32) (lines : List (UInt32 × String)) : CodeBlock where
  address
  lines := lines.map fun line => .ofList (Text.dropReturn line.2.toList)
  addresses := lines.map (·.1)

/-- A line that is written as it is. -/
def lineOf (text : List Char) : Line := { bytes := Text.encode text, ended := true }

theorem text_lineOf (text : List Char) : (lineOf text).text = Text.dropReturn text := by
  unfold lineOf Line.text
  rw [if_pos rfl, Text.dropReturn_encode, Text.decodeLossy_encode]

theorem cut_lineOf {text : List Char} (h : '\n' ∉ text) (rest : List UInt8) :
    Line.cut (Text.encode (text ++ ['\n']) ++ rest) = lineOf text :: Line.cut rest := by
  have hfree : lineFeed ∉ Text.encode text :=
    fun hmem => h (Text.asciiByte_mem_encode (c := '\n') (by decide) hmem)
  rw [Text.encode_append, List.append_assoc]
  exact Line.cut_append_lineFeed hfree rest

/-- The lines of a written block are those that were written. -/
theorem cut_write {address : UInt32} {lines : List (UInt32 × String)}
    (h : ∀ line ∈ lines, '\n' ∉ line.2.toList) (rest : List UInt8) :
    Line.cut (Text.encode (write address lines) ++ rest) =
      lineOf (Marker.write address (lines.map (·.1))) ::
        lines.map (fun line => lineOf line.2.toList) ++ Line.cut rest := by
  have hcode : Line.cut (Text.encode (lines.flatMap fun line => line.2.toList ++ ['\n']) ++ rest) =
      lines.map (fun line => lineOf line.2.toList) ++ Line.cut rest := by
    induction lines with
    | nil => rfl
    | cons line lines ih =>
      rw [List.flatMap_cons, Text.encode_append, List.append_assoc,
        cut_lineOf (h line List.mem_cons_self),
        ih fun line' hline' => h line' (List.mem_cons_of_mem line hline')]
      rfl
  have hmarker : '\n' ∉ Marker.write address (lines.map (·.1)) :=
    fun hmem => (Marker.of_mem_write hmem).2.1 rfl
  unfold write
  rw [List.append_cons, Text.encode_append, List.append_assoc, cut_lineOf hmarker, hcode]
  rfl

theorem read?_write {address : UInt32} {lines : List (UInt32 × String)}
    (h : ∀ line ∈ lines, '\n' ∉ line.2.toList) (rest : List UInt8) :
    read? address (Line.cut (Text.encode (write address lines) ++ rest)) =
      some (written address lines) := by
  have hmarker : Text.dropReturn (Marker.write address (lines.map (·.1))) =
      Marker.write address (lines.map (·.1)) := by
    unfold Text.dropReturn
    rw [if_neg]
    intro hlast
    exact (Marker.of_mem_write (List.mem_of_getLast? hlast)).2.2 rfl
  have htake : (lines.map (fun line => lineOf line.2.toList) ++ Line.cut rest).take lines.length =
      lines.map fun line => lineOf line.2.toList := List.take_left' (List.length_map _)
  rw [cut_write h, List.cons_append, read?, text_lineOf, hmarker, Marker.packed?_write]
  simp only [Delta.unpack_pack, Delta.toAddresses_ofAddresses, List.length_map, htake, if_true]
  simp [written, text_lineOf]

theorem endsLine_write (address : UInt32) (lines : List (UInt32 × String)) :
    Line.EndsLine (Text.encode (write address lines)) := by
  have hline (text : List Char) : Line.EndsLine (Text.encode (text ++ ['\n'])) := by
    right
    rw [Text.encode_append]
    exact List.getLast?_concat
  have hcode : Line.EndsLine (Text.encode (lines.flatMap fun line => line.2.toList ++ ['\n'])) := by
    induction lines with
    | nil => exact .inl rfl
    | cons line lines ih =>
      rw [List.flatMap_cons, Text.encode_append]
      exact Line.endsLine_append (hline _) ih
  unfold write
  rw [List.append_cons, Text.encode_append]
  exact Line.endsLine_append (hline _) hcode

theorem endsLine_flatMap_write (blocks : List (UInt32 × List (UInt32 × String))) :
    Line.EndsLine (Text.encode (blocks.flatMap fun block => write block.1 block.2)) := by
  induction blocks with
  | nil => exact .inl rfl
  | cons block blocks ih =>
    rw [List.flatMap_cons, Text.encode_append]
    exact Line.endsLine_append (endsLine_write block.1 block.2) ih

end CodeBlock

/-! ## The whole dump -/

namespace Dump

theorem bytes_ofBytes (bytes : List UInt8) : (ofBytes bytes).bytes = bytes := rfl

theorem index_ofBytes (bytes : List UInt8) :
    (ofBytes bytes).index =
      ((Line.positioned 0 (Line.cut bytes)).map (Line.shown Marker.window)).foldl noteLine ∅ := by
  unfold ofBytes
  simp only [linePrefixes_eq, flatten_chunksOf (show 0 < chunkSize by decide)]

/-- Lines that are no markers of an address leave its place alone. -/
theorem foldl_noteLine_of_ne {address : UInt32} {entries : List (Nat × List UInt8)}
    (h : ∀ entry ∈ entries, Marker.address? entry.2 ≠ some address)
    (index : Std.ExtTreeMap UInt32 Nat) :
    (entries.foldl noteLine index)[address]? = index[address]? := by
  induction entries generalizing index with
  | nil => rfl
  | cons entry entries ih =>
    rw [List.foldl_cons, ih fun entry' h' => h entry' (List.mem_cons_of_mem entry h')]
    unfold noteLine
    split
    · rename_i other hother
      have hne : ¬ compare other address = .eq := by
        intro hcompare
        rw [Std.LawfulEqCmp.compare_eq_iff_eq] at hcompare
        rw [hcompare] at hother
        exact h entry List.mem_cons_self hother
      rw [Std.ExtTreeMap.getElem?_insert, if_neg hne]
    · rfl

/-- The line is no marker of the address for the scan. -/
def Passes (address : UInt32) (line : Line) : Prop :=
  Marker.address? (line.bytes.take Marker.window) ≠ some address

theorem passes_lineOf {text : List Char} (h : Marker.begins text = false) (address : UInt32) :
    Passes address (CodeBlock.lineOf text) := by
  intro hmarker
  rw [Marker.begins_of_address? hmarker] at h
  cases h

/-- The last marker of an address counts. -/
theorem offset?_of_cut {bytes : List UInt8} {address : UInt32} {before later : List Line}
    {line : Line} (hcut : Line.cut bytes = before ++ line :: later)
    (hmarker : Marker.address? (line.bytes.take Marker.window) = some address)
    (hlater : ∀ l ∈ later, Passes address l) :
    (ofBytes bytes).offset? address = some (Line.extent before) := by
  unfold offset?
  rw [index_ofBytes, hcut, Line.positioned_append, Nat.zero_add, Line.positioned,
    List.map_append, List.foldl_append, List.map_cons, List.foldl_cons, foldl_noteLine_of_ne,
    noteLine]
  · simp only [Line.shown, hmarker, Std.ExtTreeMap.getElem?_insert_self]
  · intro entry hentry
    obtain ⟨place, hplace, rfl⟩ := List.mem_map.mp hentry
    exact hlater place.2 (Line.mem_of_mem_positioned hplace)

theorem offset?_of_last {before rest : List UInt8} {address : UInt32} {line : Line}
    {later : List Line} (hbefore : Line.EndsLine before) (hrest : Line.cut rest = line :: later)
    (hmarker : Marker.address? (line.bytes.take Marker.window) = some address)
    (hlater : ∀ l ∈ later, Passes address l) :
    (ofBytes (before ++ rest)).offset? address = some before.length := by
  have hcut : Line.cut (before ++ rest) = Line.cut before ++ line :: later := by
    rw [Line.cut_append hbefore, hrest]
  rw [offset?_of_cut hcut hmarker hlater, Line.extent_cut]

/-- Blocks of other addresses have no marker of this one. -/
theorem passes_of_mem_cut {address : UInt32} {blocks : List (UInt32 × List (UInt32 × String))}
    (hplain : ∀ block ∈ blocks, ∀ line ∈ block.2,
      '\n' ∉ line.2.toList ∧ Marker.begins line.2.toList = false)
    (hother : ∀ block ∈ blocks, block.1 ≠ address) :
    ∀ l ∈ Line.cut (Text.encode (blocks.flatMap fun block => CodeBlock.write block.1 block.2)),
      Passes address l := by
  induction blocks with
  | nil => exact nofun
  | cons block blocks ih =>
    have hfree : ∀ line ∈ block.2, '\n' ∉ line.2.toList :=
      fun line hline => (hplain block List.mem_cons_self line hline).1
    rw [List.flatMap_cons, Text.encode_append, CodeBlock.cut_write hfree]
    intro l hl
    rcases List.mem_append.mp hl with hl | hl
    · rcases List.mem_cons.mp hl with rfl | hl
      · unfold Passes CodeBlock.lineOf
        rw [Marker.address?_write]
        exact fun h => hother block List.mem_cons_self (Option.some.inj h)
      · obtain ⟨line, hline, rfl⟩ := List.mem_map.mp hl
        exact passes_lineOf (hplain block List.mem_cons_self line hline).2 address
    · exact ih (fun b hb => hplain b (List.mem_cons_of_mem block hb))
        (fun b hb => hother b (List.mem_cons_of_mem block hb)) l hl

/-- A block is read back if no marker of its address comes after it. -/
theorem block?_of_last {before rest : List UInt8} {address : UInt32}
    {lines : List (UInt32 × String)} (hbefore : Line.EndsLine before)
    (hlines : ∀ line ∈ lines, '\n' ∉ line.2.toList ∧ Marker.begins line.2.toList = false)
    (hrest : ∀ l ∈ Line.cut rest, Passes address l) :
    (ofBytes (before ++ (Text.encode (CodeBlock.write address lines) ++ rest))).block? address =
      some (CodeBlock.written address lines) := by
  have hfree : ∀ line ∈ lines, '\n' ∉ line.2.toList := fun line hline => (hlines line hline).1
  have hlater : ∀ l ∈ lines.map (fun line => CodeBlock.lineOf line.2.toList) ++ Line.cut rest,
      Passes address l := by
    intro l hl
    rcases List.mem_append.mp hl with hl | hl
    · obtain ⟨line, hline, rfl⟩ := List.mem_map.mp hl
      exact passes_lineOf (hlines line hline).2 address
    · exact hrest l hl
  have hmarker := Marker.address?_write address (lines.map (·.1))
  have hoffset := offset?_of_last hbefore (CodeBlock.cut_write hfree rest) hmarker hlater
  unfold block?
  rw [hoffset]
  simp only [bytes_ofBytes, List.drop_left]
  exact CodeBlock.read?_write hfree rest

/-- Behind the last item that passes a test no other one does. -/
theorem split_of_getLast?_filter {Item : Type} {p : Item → Bool} {items : List Item} {last : Item}
    (h : (items.filter p).getLast? = some last) :
    ∃ earlier later, items = earlier ++ last :: later ∧ p last = true ∧
      ∀ x ∈ later, ¬ p x = true := by
  obtain ⟨front, hfront⟩ := List.getLast?_eq_some_iff.mp h
  obtain ⟨first, rest, rfl, -, hrest⟩ := List.filter_eq_append_iff.mp hfront
  obtain ⟨skipped, later, rfl, -, hp, hlater⟩ := List.filter_eq_cons_iff.mp hrest
  refine ⟨first ++ skipped, later, ?_, hp, List.filter_eq_nil_iff.mp hlater⟩
  rw [List.append_assoc]

/-- Every address that blocks were written for gives back the last of its
blocks, with the lines and the addresses that were written, less one carriage
return at the end of each line. -/
theorem the_last_written_block_reads_back {before : List UInt8}
    {blocks : List (UInt32 × List (UInt32 × String))} (hbefore : Line.EndsLine before)
    (hplain : ∀ block ∈ blocks, ∀ line ∈ block.2,
      '\n' ∉ line.2.toList ∧ Marker.begins line.2.toList = false) :
    ∀ block ∈ blocks, ∃ lines,
      (blocks.filter (·.1 == block.1)).getLast? = some (block.1, lines) ∧
      (ofBytes (before ++
        Text.encode (blocks.flatMap fun b => CodeBlock.write b.1 b.2))).block? block.1 =
          some (CodeBlock.written block.1 lines) := by
  intro block hblock
  have hfound : block ∈ blocks.filter (·.1 == block.1) :=
    List.mem_filter.mpr ⟨hblock, beq_self_eq_true block.1⟩
  cases hlast : (blocks.filter (·.1 == block.1)).getLast? with
  | none =>
    rw [List.getLast?_eq_none_iff.mp hlast] at hfound
    cases hfound
  | some last =>
    obtain ⟨earlier, later, hsplit, hkey, hlater⟩ := split_of_getLast?_filter hlast
    obtain ⟨address, lines⟩ := last
    have haddress : address = block.1 := beq_iff_eq.mp hkey
    subst haddress
    refine ⟨lines, rfl, ?_⟩
    have hlines := hplain (block.1, lines) (by simp [hsplit])
    have hends := Line.endsLine_append hbefore (CodeBlock.endsLine_flatMap_write earlier)
    have hbytes : before ++ Text.encode (blocks.flatMap fun b => CodeBlock.write b.1 b.2) =
        (before ++ Text.encode (earlier.flatMap fun b => CodeBlock.write b.1 b.2)) ++
          (Text.encode (CodeBlock.write block.1 lines) ++
            Text.encode (later.flatMap fun b => CodeBlock.write b.1 b.2)) := by
      rw [hsplit]
      simp
    rw [hbytes]
    apply block?_of_last hends hlines
    apply passes_of_mem_cut
    · exact fun b hb => hplain b (by simp [hsplit, hb])
    · exact fun b hb h => hlater b hb (beq_iff_eq.mpr h)

/-- Two blocks of one address. -/
def rewritten : List (UInt32 × List (UInt32 × String)) :=
  [(16, [(16, "old")]), (16, [(16, "new\r"), (0xFFFFFFF0, "")])]

theorem a_rewritten_block_hides_the_old_ones :
    Line.EndsLine (Text.encode (CodeBlock.write 16 [(32, "stale")])) ∧
      (∀ block ∈ rewritten, ∀ line ∈ block.2,
        '\n' ∉ line.2.toList ∧ Marker.begins line.2.toList = false) ∧
      (ofBytes (Text.encode (CodeBlock.write 16 [(32, "stale")]) ++
        Text.encode (rewritten.flatMap fun b => CodeBlock.write b.1 b.2))).block? 16 =
          some { address := 16, lines := ["new", ""], addresses := [16, 0xFFFFFFF0] } := by
  have hplain : ∀ block ∈ rewritten, ∀ line ∈ block.2,
      '\n' ∉ line.2.toList ∧ Marker.begins line.2.toList = false := by decide
  have hbefore := CodeBlock.endsLine_write 16 [(32, "stale")]
  have hmem : (16, [(16, "old")]) ∈ rewritten := List.mem_cons_self
  obtain ⟨lines, hlast, hblock⟩ := the_last_written_block_reads_back hbefore hplain _ hmem
  have hlines : [(16, "new\r"), (0xFFFFFFF0, "")] = lines :=
    congrArg Prod.snd (Option.some.inj hlast)
  subst hlines
  exact ⟨hbefore, hplain, hblock⟩

end Dump

end BinaryAtlas
