-- The laws of ASCII characters among others. Such a character is one byte,
-- and that byte stands for nothing else; so where bytes of them stand in an
-- encoded text, the characters stand in the text.
import BinaryAtlas.Dump.Line

namespace BinaryAtlas.Text

/-- The one byte of an ASCII character. -/
def asciiByte (c : Char) : UInt8 := .ofNat c.toNat

theorem toNat_asciiByte {c : Char} (h : c.toNat < 0x80) : (asciiByte c).toNat = c.toNat :=
  toNat_ofNat_of_lt (by omega)

theorem toNat_ofNat_byte (b : UInt8) : (Char.ofNat b.toNat).toNat = b.toNat := by
  have hb := b.toNat_lt
  have hvalid : b.toNat.isValidChar := .inl (by omega)
  unfold Char.ofNat
  rw [dif_pos hvalid]
  rfl

theorem asciiByte_ofNat (b : UInt8) : asciiByte (Char.ofNat b.toNat) = b := by
  rw [asciiByte, toNat_ofNat_byte, UInt8.ofNat_toNat]

theorem map_ofNat_map_asciiByte {cs : List Char} (h : ∀ c ∈ cs, c.toNat < 0x80) :
    (cs.map asciiByte).map (fun b => Char.ofNat b.toNat) = cs := by
  rw [List.map_map]
  refine (List.map_congr_left ?_).trans (List.map_id cs)
  intro c hc
  rw [Function.comp_apply, toNat_asciiByte (h c hc), Char.ofNat_toNat, id]

/-! ## One character -/

theorem encodeChar_of_lt {c : Char} (h : c.toNat < 0x80) : encodeChar c = [asciiByte c] := by
  unfold encodeChar
  simp only
  rw [if_pos h]
  rfl

/-- All bytes of other characters are high. -/
theorem le_of_mem_encodeChar {c : Char} (h : ¬ c.toNat < 0x80) {b : UInt8}
    (hb : b ∈ encodeChar c) : 0x80 ≤ b.toNat := by
  have hc : c.toNat < 0x110000 := by
    have hv : c.toNat < 0xD800 ∨ 0xDFFF < c.toNat ∧ c.toNat < 0x110000 := c.valid
    omega
  unfold encodeChar at hb
  simp only [if_neg h] at hb
  split at hb
  · simp only [List.mem_cons, List.not_mem_nil, or_false] at hb
    rcases hb with rfl | rfl <;> rw [toNat_ofNat_of_lt (by omega)] <;> omega
  · split at hb
    · simp only [List.mem_cons, List.not_mem_nil, or_false] at hb
      rcases hb with rfl | rfl | rfl <;> rw [toNat_ofNat_of_lt (by omega)] <;> omega
    · simp only [List.mem_cons, List.not_mem_nil, or_false] at hb
      rcases hb with rfl | rfl | rfl | rfl <;> rw [toNat_ofNat_of_lt (by omega)] <;> omega

theorem encodeChar_ne_nil (c : Char) : encodeChar c ≠ [] := by
  unfold encodeChar
  simp only
  split
  · simp
  · split
    · simp
    · split <;> simp

/-- A low byte of a character is the whole of it. -/
theorem of_mem_encodeChar {c : Char} {b : UInt8} (hb : b ∈ encodeChar c) (hlow : b.toNat < 0x80) :
    c.toNat = b.toNat ∧ encodeChar c = [b] := by
  by_cases h : c.toNat < 0x80
  · rw [encodeChar_of_lt h] at hb ⊢
    obtain rfl := List.mem_singleton.mp hb
    exact ⟨(toNat_asciiByte h).symm, rfl⟩
  · have := le_of_mem_encodeChar h hb
    omega

/-! ## Texts -/

/-- Each character takes a byte at least. -/
theorem length_le_byteLength (cs : List Char) : cs.length ≤ byteLength cs := by
  induction cs with
  | nil => exact Nat.le_refl 0
  | cons c cs ih =>
    have hpos := List.length_pos_iff.mpr (encodeChar_ne_nil c)
    unfold byteLength at ih ⊢
    rw [encode_cons, List.length_append, List.length_cons]
    omega

theorem encode_ascii {cs : List Char} (h : ∀ c ∈ cs, c.toNat < 0x80) :
    encode cs = cs.map asciiByte := by
  induction cs with
  | nil => rfl
  | cons c cs ih =>
    rw [encode_cons, encodeChar_of_lt (h c List.mem_cons_self),
      ih fun c' hc' => h c' (List.mem_cons_of_mem c hc')]
    rfl

theorem asciiByte_mem_encode {c : Char} {cs : List Char} (h : c.toNat < 0x80)
    (hmem : asciiByte c ∈ encode cs) : c ∈ cs := by
  obtain ⟨c', hc', hb⟩ := List.mem_flatMap.mp hmem
  have hlow : (asciiByte c).toNat < 0x80 := by
    rw [toNat_asciiByte h]
    exact h
  have hsame := (of_mem_encodeChar hb hlow).1
  rw [toNat_asciiByte h] at hsame
  rw [← Char.toNat_inj.mp hsame]
  exact hc'

/-- ASCII bytes at the start of an encoded text are characters at the start of
the text. -/
theorem of_encode_eq_append {bs rest : List UInt8} :
    ∀ {cs : List Char}, (∀ b ∈ bs, b.toNat < 0x80) → encode cs = bs ++ rest →
      ∃ tail, cs = bs.map (fun b => Char.ofNat b.toNat) ++ tail ∧ encode tail = rest := by
  induction bs with
  | nil => exact fun _ hcs => ⟨_, rfl, hcs⟩
  | cons b bs ih =>
    intro cs hlow hcs
    cases cs with
    | nil => cases hcs
    | cons c cs =>
      rw [encode_cons, List.cons_append] at hcs
      have hmem : b ∈ encodeChar c := by
        have hne := encodeChar_ne_nil c
        cases he : encodeChar c with
        | nil => exact absurd he hne
        | cons b' bs' =>
          rw [he, List.cons_append] at hcs
          rw [(List.cons.inj hcs).1]
          exact List.mem_cons_self
      obtain ⟨hc, hone⟩ := of_mem_encodeChar hmem (hlow b List.mem_cons_self)
      rw [hone, List.singleton_append] at hcs
      obtain ⟨tail, rfl, htail⟩ :=
        ih (fun b' hb' => hlow b' (List.mem_cons_of_mem b hb')) (List.cons.inj hcs).2
      refine ⟨tail, ?_, htail⟩
      rw [List.map_cons, List.cons_append, ← hc, Char.ofNat_toNat]

/-- An ASCII text at the start of an encoded text is the start of the text. -/
theorem of_encode_eq_encode_append {cs first : List Char} {rest : List UInt8}
    (h : ∀ c ∈ first, c.toNat < 0x80) (hcs : encode cs = encode first ++ rest) :
    ∃ tail, cs = first ++ tail := by
  rw [encode_ascii h] at hcs
  have hlow : ∀ b ∈ first.map asciiByte, b.toNat < 0x80 := by
    intro b hb
    obtain ⟨c, hc, rfl⟩ := List.mem_map.mp hb
    rw [toNat_asciiByte (h c hc)]
    exact h c hc
  obtain ⟨tail, htail, -⟩ := of_encode_eq_append hlow hcs
  rw [map_ofNat_map_asciiByte h] at htail
  exact ⟨tail, htail⟩

/-- Bytes of ASCII characters are dropped one by one. -/
theorem dropBytes?_ascii {cs : List Char} (h : ∀ c ∈ cs, c.toNat < 0x80) (rest : List Char) :
    dropBytes? cs.length (cs ++ rest) = some rest := by
  induction cs with
  | nil => rw [List.nil_append, List.length_nil, dropBytes?]
  | cons c cs ih =>
    have hwidth : (encodeChar c).length = 1 := by
      rw [encodeChar_of_lt (h c List.mem_cons_self)]
      rfl
    rw [List.length_cons, List.cons_append, dropBytes?, hwidth, if_pos (by omega),
      Nat.add_sub_cancel]
    exact ih fun c' hc' => h c' (List.mem_cons_of_mem c hc')

/-! ## The end of a line -/

/-- The text without one carriage return at the end. -/
def dropReturn (cs : List Char) : List Char := if cs.getLast? = some '\r' then cs.dropLast else cs

theorem dropReturn_encode (cs : List Char) :
    Line.dropReturn (encode cs) = encode (dropReturn cs) := by
  unfold Line.dropReturn dropReturn
  rcases List.eq_nil_or_concat cs with rfl | ⟨cs, c, rfl⟩
  · rfl
  · rw [List.concat_eq_append, List.getLast?_concat, List.dropLast_concat, encode_append]
    have hlast : (encode cs ++ encode [c]).getLast? = (encodeChar c).getLast? := by
      rw [List.getLast?_append, encode_cons, encode_nil, List.append_nil]
      cases he : (encodeChar c).getLast? with
      | none => exact absurd (List.getLast?_eq_none_iff.mp he) (encodeChar_ne_nil c)
      | some b => rfl
    rw [hlast]
    by_cases hc : c = '\r'
    · subst hc
      rw [if_pos (by decide), if_pos rfl, show encode ['\r'] = [carriageReturn] from rfl,
        List.dropLast_concat]
    · have hother : ¬ (encodeChar c).getLast? = some carriageReturn := by
        intro hreturn
        have hmem := List.mem_of_getLast? hreturn
        have hsame := (of_mem_encodeChar hmem (by decide)).1
        exact hc (Char.toNat_inj.mp hsame)
      rw [if_neg hother, if_neg (by simpa using hc), encode_append]

end BinaryAtlas.Text
