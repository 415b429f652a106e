-- The laws of texts in JSON. A character is written as two bytes after a
-- backslash, as a hexadecimal number, or as it stands. The lexer takes each of
-- them as a part of one text, and the reader of texts gives the character back.
import BinaryAtlas.Json.Spelling
import BinaryAtlas.Proofs.AsciiText

namespace BinaryAtlas.Json

open Text

/-! ## Runs of a machine -/

section

variable {State Input : Type} {step : State → Input → Option State} {s s' : State}

theorem foldlM_cons_of_some {input : Input} {rest : List Input} (h : step s input = some s') :
    (input :: rest).foldlM step s = rest.foldlM step s' := by
  rw [List.foldlM_cons, h]
  rfl

theorem foldlM_append_of_some {first rest : List Input} (h : first.foldlM step s = some s') :
    (first ++ rest).foldlM step s = rest.foldlM step s' := by
  rw [List.foldlM_append, h]
  rfl

end

/-! ## One character, written -/

/-- A byte that stands for itself inside a text. -/
def StandsAsIs (b : UInt8) : Prop := b ≠ quote ∧ b ≠ backslash ∧ ¬ b < 0x20

/-- The ways to write a character inside a text. -/
inductive Written (c : Char) : List UInt8 → Prop
  | escaped {b byte : UInt8} (hb : escaped? b = some byte) (hc : encodeChar c = [byte]) :
      Written c [backslash, b]
  | hex (hc : c.toNat < 0x20) :
      Written c [backslash, hexMark, 0x30, 0x30, hexByte (c.toNat / 16), hexByte (c.toNat % 16)]
  | plain (hc : ∀ b ∈ encodeChar c, StandsAsIs b) : Written c (encodeChar c)

theorem standsAsIs_of_mem_encodeChar {c : Char} (hquote : c.toNat ≠ 0x22)
    (hbackslash : c.toNat ≠ 0x5C) (hcontrol : ¬ c.toNat < 0x20) :
    ∀ b ∈ encodeChar c, StandsAsIs b := by
  intro b hb
  have hn : b.toNat ≠ 0x22 ∧ b.toNat ≠ 0x5C ∧ ¬ b.toNat < 0x20 := by
    by_cases hlow : b.toNat < 0x80
    · rw [← (of_mem_encodeChar hb hlow).1]
      exact ⟨hquote, hbackslash, hcontrol⟩
    · omega
  refine ⟨?_, ?_, hn.2.2⟩
  · rintro rfl
    exact hn.1 rfl
  · rintro rfl
    exact hn.2.1 rfl

theorem written_spellChar (c : Char) : Written c (spellChar c) := by
  have hone {n : Nat} (h : c.toNat = n) (hn : n < 0x80) : encodeChar c = [.ofNat n] := by
    rw [encodeChar_of_lt (by omega), asciiByte, h]
  unfold spellChar
  dsimp only
  split
  · exact .escaped rfl (hone ‹_› (by decide))
  split
  · exact .escaped rfl (hone ‹_› (by decide))
  split
  · exact .escaped rfl (hone ‹_› (by decide))
  split
  · exact .escaped rfl (hone ‹_› (by decide))
  split
  · exact .escaped rfl (hone ‹_› (by decide))
  split
  · exact .escaped rfl (hone ‹_› (by decide))
  split
  · exact .escaped rfl (hone ‹_› (by decide))
  split
  · exact .hex ‹_›
  · exact .plain (standsAsIs_of_mem_encodeChar ‹_› ‹_› ‹_›)

theorem ne_hexMark_of_escaped? {b byte : UInt8} (h : escaped? b = some byte) : b ≠ hexMark := by
  rintro rfl
  cases h

theorem hexValue?_hexByte : ∀ {digit : Nat}, digit < 16 →
    hexValue? (hexByte digit) = some digit := by
  decide

/-! ## Texts and the lexer -/

namespace Lexer

variable {b byte : UInt8} {digit left : Nat} {before : List UInt8} {tokens : List Token}

@[simp]
theorem step_backslash : step { place := .inText before, tokens } backslash =
    some { place := .afterBackslash (backslash :: before), tokens } := rfl

@[simp]
theorem step_hexMark : step { place := .afterBackslash before, tokens } hexMark =
    some { place := .inHex 3 (hexMark :: before), tokens } := rfl

theorem step_escaped (h : escaped? b = some byte) :
    step { place := .afterBackslash before, tokens } b =
      some { place := .inText (b :: before), tokens } := by
  simp [step, ne_hexMark_of_escaped? h, h]

theorem step_digit (h : hexValue? b = some digit) :
    step { place := .inHex (left + 1) before, tokens } b =
      some { place := .inHex left (b :: before), tokens } := by
  simp [step, h]

theorem step_lastDigit (h : hexValue? b = some digit) :
    step { place := .inHex 0 before, tokens } b =
      some { place := .inText (b :: before), tokens } := by
  simp [step, h]

theorem foldlM_step_plain {bytes : List UInt8} (h : ∀ b ∈ bytes, StandsAsIs b)
    (before : List UInt8) (tokens : List Token) :
    bytes.foldlM step { place := .inText before, tokens } =
      some { place := .inText (bytes.reverse ++ before), tokens } := by
  induction bytes generalizing before with
  | nil => rfl
  | cons b bytes ih =>
    obtain ⟨hquote, hbackslash, hcontrol⟩ := h b List.mem_cons_self
    have hstep : step { place := .inText before, tokens } b =
        some { place := .inText (b :: before), tokens } := by
      simp [step, hquote, hbackslash, hcontrol]
    rw [foldlM_cons_of_some hstep, ih fun b' hb' => h b' (List.mem_cons_of_mem b hb'),
      List.reverse_cons, List.append_assoc, List.singleton_append]

/-- The lexer takes a written character as a part of the text that it is in. -/
theorem foldlM_step_written {c : Char} {bytes : List UInt8} (h : Written c bytes)
    (before : List UInt8) (tokens : List Token) :
    bytes.foldlM step { place := .inText before, tokens } =
      some { place := .inText (bytes.reverse ++ before), tokens } := by
  cases h with
  | escaped hb hc => simp [step_escaped hb]
  | hex hc =>
    have hhigh := hexValue?_hexByte (show c.toNat / 16 < 16 by omega)
    have hlow := hexValue?_hexByte (show c.toNat % 16 < 16 by omega)
    have hzero : hexValue? 0x30 = some 0 := by decide
    simp [step_digit hhigh, step_lastDigit hlow, step_digit hzero]
  | plain hc => exact foldlM_step_plain hc before tokens

theorem foldlM_step_spellText (cs : List Char) (before : List UInt8) (tokens : List Token) :
    (spellText cs).foldlM step { place := .inText before, tokens } =
      some { place := .inText ((spellText cs).reverse ++ before), tokens } := by
  induction cs generalizing before with
  | nil => rfl
  | cons c cs ih =>
    rw [spellText, List.flatMap_cons,
      foldlM_append_of_some (foldlM_step_written (written_spellChar c) before tokens), ← spellText,
      ih, List.reverse_append, List.append_assoc]

end Lexer

/-! ## Texts and their reader -/

namespace Unescape

variable {b byte : UInt8} {digit left value : Nat} {before : List UInt8}

@[simp]
theorem step_backslash : step { bytes := before } backslash =
    some { place := .afterBackslash, bytes := before } := rfl

@[simp]
theorem step_hexMark : step { place := .afterBackslash, bytes := before } hexMark =
    some { place := .inHex 3 0, bytes := before } := rfl

theorem step_escaped (h : escaped? b = some byte) :
    step { place := .afterBackslash, bytes := before } b = some { bytes := byte :: before } := by
  simp [step, ne_hexMark_of_escaped? h, h]

theorem step_digit (h : hexValue? b = some digit) :
    step { place := .inHex (left + 1) value, bytes := before } b =
      some { place := .inHex left (value * 16 + digit), bytes := before } := by
  simp [step, h]

/-- The last digit of a number below the surrogates completes a character. -/
theorem step_lastDigit (h : hexValue? b = some digit) (hlow : value * 16 + digit < 0xD800) :
    step { place := .inHex 0 value, bytes := before } b =
      some { bytes := (encodeChar (.ofNat (value * 16 + digit))).reverse ++ before } := by
  have hsurrogate : ¬ 0xD800 ≤ value * 16 + digit := by omega
  have hlate : ¬ 0xDC00 ≤ value * 16 + digit := by omega
  simp [step, h, takeUnit, hsurrogate, hlate]

theorem foldlM_step_plain {bytes : List UInt8} (h : ∀ b ∈ bytes, StandsAsIs b)
    (before : List UInt8) :
    bytes.foldlM step { bytes := before } = some { bytes := bytes.reverse ++ before } := by
  induction bytes generalizing before with
  | nil => rfl
  | cons b bytes ih =>
    obtain ⟨-, hbackslash, -⟩ := h b List.mem_cons_self
    have hstep : step { bytes := before } b = some { bytes := b :: before } := by
      simp [step, hbackslash]
    rw [foldlM_cons_of_some hstep, ih fun b' hb' => h b' (List.mem_cons_of_mem b hb'),
      List.reverse_cons, List.append_assoc, List.singleton_append]

/-- The reader of texts collects the bytes of a written character. -/
theorem foldlM_step_written {c : Char} {bytes : List UInt8} (h : Written c bytes)
    (before : List UInt8) :
    bytes.foldlM step { bytes := before } = some { bytes := (encodeChar c).reverse ++ before } := by
  cases h with
  | escaped hb hc => simp [step_escaped hb, hc]
  | hex hc =>
    have hhigh := hexValue?_hexByte (show c.toNat / 16 < 16 by omega)
    have hlow := hexValue?_hexByte (show c.toNat % 16 < 16 by omega)
    have hzero : hexValue? 0x30 = some 0 := by decide
    have hunit : c.toNat / 16 * 16 + c.toNat % 16 = c.toNat := Nat.div_add_mod' _ _
    have hlast : step { place := .inHex 0 (c.toNat / 16), bytes := before }
        (hexByte (c.toNat % 16)) = some { bytes := (encodeChar c).reverse ++ before } := by
      rw [step_lastDigit hlow (by omega), hunit, Char.ofNat_toNat]
    simp [step_digit hhigh, step_digit hzero, hlast]
  | plain hc => exact foldlM_step_plain hc before

theorem foldlM_step_spellText (cs : List Char) (before : List UInt8) :
    (spellText cs).foldlM step { bytes := before } =
      some { bytes := (encode cs).reverse ++ before } := by
  induction cs generalizing before with
  | nil => rfl
  | cons c cs ih =>
    rw [spellText, List.flatMap_cons,
      foldlM_append_of_some (foldlM_step_written (written_spellChar c) before), ← spellText, ih,
      encode_cons, List.reverse_append, List.append_assoc]

end Unescape

/-- Every text is read back from its spelling: all of Unicode, quotes, backslashes and
controls included. -/
@[simp]
theorem readText?_spellText (cs : List Char) : readText? (spellText cs) = some cs := by
  unfold readText?
  rw [Unescape.foldlM_step_spellText]
  simp [Unescape.finish]

@[simp]
theorem string?_ofString (s : String) : (ofString s).string? = some s := by
  simp [ofString, string?]

end BinaryAtlas.Json
