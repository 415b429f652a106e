-- The laws of a dump whose bytes are replaced after the scan. A look-up goes to
-- the place that the scan found and takes the line there for the marker of its
-- address, if it only begins like a marker and is as long as one.
import BinaryAtlas.Proofs.DumpReading
import BinaryAtlas.Proofs.LossyText

namespace BinaryAtlas

/-! ## Lines that pass for markers -/

namespace Marker

/-- The line begins with the marker's start, and its text is as long as a marker
with an address. -/
structure Passes (line : Line) : Prop where
  starts : Text.encode start <+: line.bytes
  long : window ≤ Text.byteLength line.text

theorem starts_text_iff {line : Line} : start <+: line.text ↔ Text.encode start <+: line.bytes := by
  have hall : start.all (fun c => c.toNat ≠ 0 ∧ c.toNat < 0x80) = true := by decide
  have hascii : ∀ c ∈ start, c.toNat ≠ 0 ∧ c.toNat < 0x80 :=
    fun c hc => of_decide_eq_true (List.all_eq_true.mp hall c hc)
  have hreturn : carriageReturn ∉ Text.encode start := by decide
  rw [Line.text, Text.prefix_decodeLossy_iff hascii]
  split
  · constructor
    · intro h
      refine h.trans ?_
      unfold Line.dropReturn
      split
      · exact List.dropLast_prefix line.bytes
      · exact List.prefix_rfl
    · rintro ⟨rest, hrest⟩
      rw [← hrest, Line.dropReturn_append hreturn]
      exact List.prefix_append _ _
  · exact Iff.rfl

/-- A look-up takes just the lines that pass for markers. -/
theorem packed?_eq_some_iff {line : Line} {packed : List Char} :
    packed? line.text = some packed ↔ Passes line ∧ packed = line.packed := by
  have hpasses : Passes line ↔ start.isPrefixOf line.text = true ∧
      window ≤ Text.byteLength line.text := by
    rw [List.isPrefixOf_iff_prefix, starts_text_iff]
    exact ⟨fun h => ⟨h.starts, h.long⟩, fun h => ⟨h.1, h.2⟩⟩
  rw [packed?, Option.ite_none_right_eq_some, ← hpasses, Option.some.injEq, eq_comm (a := packed)]
  rfl

/-- The line passes for a marker, but it is none of the address: its eight digits
are missing, or they spell another address. -/
def Forged (address : UInt32) (line : Line) : Prop := Passes line ∧ ¬Marks address line.bytes

/-- What passes for a marker is one of the address, or is forged. -/
theorem passes_iff {address : UInt32} {line : Line} :
    Passes line ↔ Marks address line.bytes ∨ Forged address line := by
  constructor
  · intro h
    by_cases hmarks : Marks address line.bytes
    · exact .inl hmarks
    · exact .inr ⟨h, hmarks⟩
  · rintro (hmarks | hforged)
    · exact (packed?_eq_some_iff.mp (packed?_of_marks hmarks)).1
    · exact hforged.1

end Marker

/-! ## Replaced bytes -/

namespace Dump

theorem block?_replaceBytes {dump : Dump} {address : UInt32} {offset : Nat}
    (h : dump.offset? address = some offset) (later : List UInt8) :
    (dump.replaceBytes later).block? address =
      CodeBlock.read? address (Line.cut (later.drop offset)) := by
  have hindex : (dump.replaceBytes later).offset? address = some offset := h
  rw [block?, hindex]
  rfl

/-- Whatever bytes come into a dump after its scan, a look-up of an address that
the scan found gives a block just where the line at the found place is a marker
of the address, or is forged, and is followed by as many lines as it asks for. -/
theorem a_replaced_dump_is_read_behind_what_passes_for_a_marker {dump : Dump} {address : UInt32}
    {offset : Nat} (h : dump.offset? address = some offset) (later : List UInt8) (place : Nat)
    (block : CodeBlock) :
    ((dump.replaceBytes later).lookUp address place).1 = some block ↔
      ∃ line after, Line.cut (later.drop offset) = line :: after ∧
        (Marker.Marks address line.bytes ∨ Marker.Forged address line) ∧
        line.codeSize ≤ after.length ∧
        block = {
          address
          lines := (after.take line.codeSize).map fun line => .ofList line.text
          addresses := Delta.toAddresses address (Delta.unpack line.packed) } := by
  rw [fst_lookUp, block?_replaceBytes h]
  cases hcut : Line.cut (later.drop offset) with
  | nil => simp [CodeBlock.read?]
  | cons line after =>
    simp only [List.cons.injEq, ← Marker.passes_iff]
    by_cases hpasses : Marker.Passes line
    · have hpacked := Marker.packed?_eq_some_iff.mpr ⟨hpasses, rfl⟩
      rw [CodeBlock.read?_of_packed? hpacked]
      constructor
      · intro hblock
        obtain ⟨hfull, hblock⟩ := Option.ite_none_right_eq_some.mp hblock
        exact ⟨line, after, ⟨rfl, rfl⟩, hpasses, hfull, (Option.some.inj hblock).symm⟩
      · rintro ⟨line, after, ⟨rfl, rfl⟩, -, hfull, rfl⟩
        rw [if_pos hfull]
    · have hnone : Marker.packed? line.text = none := by
        rw [Option.eq_none_iff_forall_ne_some]
        exact fun packed hpacked => hpasses (Marker.packed?_eq_some_iff.mp hpacked).1
      rw [CodeBlock.read?, hnone]
      constructor
      · intro hblock
        cases hblock
      · rintro ⟨line, after, ⟨rfl, rfl⟩, hline, -⟩
        exact absurd hline hpasses

/-- A marker behind one other line. -/
def scanned : Dump := ofBytes (Text.bytesOf "head\n//!L! 00001000 \n")

theorem offset?_scanned : scanned.offset? 0x1000 = some 5 := by
  rw [scanned, offset?, index_ofBytes]
  decide +kernel

theorem the_marker_of_another_address_gives_a_block :
    scanned.offset? 0x1000 = some 5 ∧
      ((scanned.replaceBytes (Text.bytesOf "past\n//!L! 00002000 A\nmain\r\n")).lookUp 0x1000 0).1 =
        some { address := 0x1000, lines := ["main"], addresses := [0x1000] } := by
  refine ⟨offset?_scanned, ?_⟩
  rw [a_replaced_dump_is_read_behind_what_passes_for_a_marker offset?_scanned]
  have hpasses : Marker.Passes { bytes := Text.bytesOf "//!L! 00002000 A", ended := true } :=
    ⟨by decide +kernel, by decide +kernel⟩
  have hother : ¬Marker.Marks 0x1000 (Text.bytesOf "//!L! 00002000 A") := fun h =>
    absurd (Marker.address?_eq_some_iff.mpr h) (by decide +kernel)
  exact ⟨{ bytes := Text.bytesOf "//!L! 00002000 A", ended := true },
    [{ bytes := Text.bytesOf "main\r", ended := true }], by rfl, .inr ⟨hpasses, hother⟩,
    by decide +kernel, by decide +kernel⟩

/-- Letters that are no digits stand where the address should. -/
theorem a_line_without_an_address_gives_a_block :
    let dump := ofBytes (Text.bytesOf "//!L! 00001000 \n")
    let later := Text.bytesOf "//!L! wwwwwwww \n"
    dump.offset? 0x1000 = some 0 ∧
      ((dump.replaceBytes later).lookUp 0x1000 0).1 =
        some { address := 0x1000, lines := [], addresses := [] } ∧
      ∀ line ∈ Line.cut later, ∀ address, ¬Marker.Marks address line.bytes := by
  intro dump later
  have hoffset : dump.offset? 0x1000 = some 0 := by
    rw [offset?, index_ofBytes]
    decide +kernel
  refine ⟨hoffset, ?_, ?_⟩
  · rw [fst_lookUp, block?_replaceBytes hoffset]
    decide +kernel
  · intro line hline address hmarks
    have haddress := Marker.address?_eq_some_iff.mpr hmarks
    have hnone : ∀ line ∈ Line.cut later,
        Marker.address? (line.bytes.take Marker.window) = none := by
      decide +kernel
    rw [hnone line hline] at haddress
    cases haddress

end Dump

end BinaryAtlas
