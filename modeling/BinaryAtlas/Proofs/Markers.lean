-- The laws of markers. A marker line that is written is found again: the scan
-- reads its address, the reader takes its deltas, and no line that does not
-- begin as a marker does is taken for one.
import BinaryAtlas.Dump.Basic
import BinaryAtlas.Proofs.AsciiText
import BinaryAtlas.Proofs.Deltas
import BinaryAtlas.Proofs.Numerals

namespace BinaryAtlas.Marker

/-! ## Characters -/

/-- An ASCII character that ends no line. -/
def isInline (c : Char) : Bool := c.toNat < 0x80 && c != '\n' && c != '\r'

theorem isInline_of_mem_write {address : UInt32} {addresses : List UInt32} {c : Char}
    (h : c ∈ write address addresses) : isInline c = true := by
  have hstart : start.all isInline = true := by decide
  have hdigit : ∀ value < 16, isInline (Text.hexDigit value) = true := by decide
  have hpacked : Delta.packedChars.all isInline = true := by decide
  unfold write at h
  rw [List.mem_append, List.mem_append, List.mem_cons] at h
  rcases h with (h | h) | rfl | h
  · exact List.all_eq_true.mp hstart c h
  · obtain ⟨value, hlt, rfl⟩ := Text.mem_hexPlaces h
    exact hdigit value hlt
  · rfl
  · exact List.all_eq_true.mp hpacked c (Delta.mem_packedChars_of_mem_pack h)

/-- The characters of a marker line are ASCII, and none ends a line. -/
theorem of_mem_write {address : UInt32} {addresses : List UInt32} {c : Char}
    (h : c ∈ write address addresses) : c.toNat < 0x80 ∧ c ≠ '\n' ∧ c ≠ '\r' := by
  simpa [isInline, and_assoc] using isInline_of_mem_write h

/-! ## Addresses -/

/-- The address of a marker is what its digits spell. -/
theorem address?_digits {digits : List Char} (hlength : digits.length = addressDigits)
    (hascii : ∀ c ∈ digits, c.toNat < 0x80) :
    address? (Text.encode start ++ digits.map Text.asciiByte) =
      (Text.digitsValue? 16 0 digits).map UInt32.ofNat := by
  have hstart : (Text.encode start).length = start.length := rfl
  have hdrop : (Text.encode start ++ digits.map Text.asciiByte).drop start.length =
      digits.map Text.asciiByte := List.drop_left' hstart
  have htake : (digits.map Text.asciiByte).take addressDigits = digits.map Text.asciiByte := by
    rw [← hlength, ← List.length_map (f := Text.asciiByte), List.take_length]
  have hback := Text.map_ofNat_map_asciiByte hascii
  have hbegins : (Text.encode start).isPrefixOf
      (Text.encode start ++ digits.map Text.asciiByte) = true :=
    List.isPrefixOf_iff_prefix.mpr (List.prefix_append _ _)
  unfold address?
  simp only [hdrop, htake, hback, hbegins, hlength, and_self, if_true]

theorem take_window_write (address : UInt32) (addresses : List UInt32) :
    (Text.encode (write address addresses)).take window =
      Text.encode start ++ (Text.hexAddress address).map Text.asciiByte := by
  unfold write
  rw [Text.encode_append, Text.encode_append, Text.encode_ascii (Text.ascii_hexAddress address)]
  apply List.take_left'
  rw [List.length_append, List.length_map, Text.hexAddress, Text.length_hexPlaces]
  rfl

/-- The scan reads the address of a marker line. -/
theorem address?_write (address : UInt32) (addresses : List UInt32) :
    address? ((Text.encode (write address addresses)).take window) = some address := by
  have hlength : (Text.hexAddress address).length = addressDigits := Text.length_hexPlaces 8 _
  have hword := address.toNat_lt
  rw [take_window_write, address?_digits hlength (Text.ascii_hexAddress address), Text.hexAddress,
    Text.digitsValue?_hexPlaces, Option.map_some, Nat.zero_mul, Nat.zero_add,
    Nat.mod_eq_of_lt (by omega), UInt32.ofNat_toNat]

/-- The line begins as a marker of the address does: with the marker's start and
eight hexadecimal digits that spell the address. -/
def Marks (address : UInt32) (line : List UInt8) : Prop :=
  ∃ digits rest, line = Text.encode (start ++ digits) ++ rest ∧
    digits.length = addressDigits ∧ Text.digitsValue? 16 0 digits = some address.toNat

theorem ascii_digits {digits : List Char} {n : Nat}
    (h : Text.digitsValue? 16 0 digits = some n) : ∀ c ∈ digits, c.toNat < 0x80 :=
  fun c hc => Text.lt_of_isHexDigit (Text.isHexDigit_of_digitsValue? h c hc)

theorem ascii_start_append {digits : List Char} {n : Nat}
    (h : Text.digitsValue? 16 0 digits = some n) : ∀ c ∈ start ++ digits, c.toNat < 0x80 := by
  have hstart : start.all (·.toNat < 0x80) = true := by decide
  intro c hc
  rcases List.mem_append.mp hc with hc | hc
  · exact of_decide_eq_true (List.all_eq_true.mp hstart c hc)
  · exact ascii_digits h c hc

/-- What the scan takes for a marker of an address is one, and nothing else is. -/
theorem address?_eq_some_iff {line : List UInt8} {address : UInt32} :
    address? (line.take window) = some address ↔ Marks address line := by
  constructor
  · intro h
    unfold address? at h
    simp only at h
    split at h
    · rename_i hmarker
      obtain ⟨hstarts, hlength⟩ := hmarker
      obtain ⟨value, hvalue, haddress⟩ := Option.map_eq_some_iff.mp h
      obtain ⟨rest, hrest⟩ := List.isPrefixOf_iff_prefix.mp hstarts
      rw [← hrest, List.drop_left' (show (Text.encode start).length = start.length from rfl)]
        at hlength hvalue
      refine ⟨_, rest.drop addressDigits ++ line.drop window, ?_, hlength, ?_⟩
      · -- The digits are ASCII, so their characters are encoded by the same bytes.
        have hback : ((rest.take addressDigits).map fun b => Char.ofNat b.toNat).map
            Text.asciiByte = rest.take addressDigits := by
          rw [List.map_map]
          exact (List.map_congr_left fun b _ => Text.asciiByte_ofNat b).trans (List.map_id _)
        rw [Text.encode_append, Text.encode_ascii (ascii_digits hvalue), hback, List.append_assoc,
          ← List.append_assoc (rest.take addressDigits), List.take_append_drop,
          ← List.append_assoc, hrest, List.take_append_drop]
      · have hbound := Text.digitsValue?_lt hvalue
        rw [hlength, Nat.zero_add, Nat.one_mul] at hbound
        rw [hvalue, ← haddress, UInt32.toNat_ofNat_of_lt' hbound]
    · cases h
  · rintro ⟨digits, rest, rfl, hlength, hvalue⟩
    have hascii := ascii_digits hvalue
    have hwindow : (Text.encode start ++ digits.map Text.asciiByte).length = window := by
      rw [List.length_append, List.length_map, hlength]
      rfl
    rw [Text.encode_append, Text.encode_ascii hascii, List.take_left' hwindow,
      address?_digits hlength hascii, hvalue, Option.map_some, UInt32.ofNat_toNat]

/-- The text begins as a marker line does. -/
def begins (text : List Char) : Bool :=
  let digits := (text.drop start.length).take addressDigits
  start.isPrefixOf text && digits.length == addressDigits && digits.all Text.isHexDigit

theorem begins_append {digits : List Char} (hlength : digits.length = addressDigits)
    (hdigits : ∀ c ∈ digits, Text.isHexDigit c = true) (tail : List Char) :
    begins (start ++ digits ++ tail) = true := by
  have hstarts : start.isPrefixOf (start ++ digits ++ tail) = true := by
    rw [List.append_assoc]
    exact List.isPrefixOf_iff_prefix.mpr (List.prefix_append _ _)
  have htake : ((start ++ digits ++ tail).drop start.length).take addressDigits = digits := by
    rw [List.append_assoc, List.drop_left, List.take_left' hlength]
  unfold begins
  simp only [htake, hstarts, hlength, beq_self_eq_true, Bool.true_and, List.all_eq_true]
  exact hdigits

/-- A line that has an address for the scan begins as a marker does. Its bytes
there are ASCII, so the characters of the line are those of the bytes. -/
theorem begins_of_address? {text : List Char} {address : UInt32}
    (h : address? ((Text.encode text).take window) = some address) : begins text = true := by
  obtain ⟨digits, rest, hbytes, hlength, hvalue⟩ := address?_eq_some_iff.mp h
  obtain ⟨tail, rfl⟩ := Text.of_encode_eq_encode_append (ascii_start_append hvalue) hbytes
  exact begins_append hlength (Text.isHexDigit_of_digitsValue? hvalue) tail

/-! ## Deltas -/

/-- The reader takes the packed deltas out of a marker line. -/
theorem packed?_write (address : UInt32) (addresses : List UInt32) :
    packed? (write address addresses) =
      some (Delta.pack (Delta.ofAddresses address addresses)) := by
  have hhead : write address addresses = (start ++ Text.hexAddress address ++ [' ']) ++
      Delta.pack (Delta.ofAddresses address addresses) := by
    unfold write
    simp
  have hlength : (start ++ Text.hexAddress address ++ [' ']).length = window + 1 := by
    rw [List.length_append, List.length_append, Text.hexAddress, Text.length_hexPlaces]
    rfl
  have hascii : ∀ c ∈ start ++ Text.hexAddress address ++ [' '], c.toNat < 0x80 := by
    intro c hc
    have hmem : c ∈ write address addresses := by
      rw [hhead]
      exact List.mem_append_left _ hc
    exact (of_mem_write hmem).1
  have hstarts : start.isPrefixOf (write address addresses) = true := by
    unfold write
    rw [List.append_assoc]
    exact List.isPrefixOf_iff_prefix.mpr (List.prefix_append _ _)
  have hdrop := Text.dropBytes?_ascii hascii (Delta.pack (Delta.ofAddresses address addresses))
  rw [hlength, ← hhead] at hdrop
  have hwide : window ≤ Text.byteLength (write address addresses) := by
    unfold Text.byteLength
    rw [hhead, Text.encode_append, List.length_append, Text.encode_ascii hascii, List.length_map,
      hlength]
    omega
  unfold packed?
  rw [if_pos ⟨hstarts, hwide⟩, hdrop, Option.getD_some]

end BinaryAtlas.Marker
