-- The order of texts. Texts stand in the order of their characters. Their
-- bytes stand in the same order, for a character with a larger number has a
-- larger byte at the first place where the two differ.
import BinaryAtlas.Proofs.AsciiText

namespace BinaryAtlas.Text

/-- Two runs of bytes that start with no larger a byte, and go on in order if the
two bytes are the same. -/
theorem ofNat_cons_lt {a b : Nat} {as bs : List UInt8} (hle : a ≤ b) (hb : b < 256)
    (h : a = b → as < bs) : UInt8.ofNat a :: as < UInt8.ofNat b :: bs := by
  rw [List.cons_lt_cons_iff]
  rcases Nat.lt_or_eq_of_le hle with hlt | rfl
  · left
    rw [UInt8.lt_iff_toNat_lt, toNat_ofNat_of_lt (by omega), toNat_ofNat_of_lt hb]
    exact hlt
  · exact .inr ⟨rfl, h rfl⟩

/-- The bytes of the smaller character stand before those of the larger one, whatever
follows. -/
theorem encodeChar_append_lt {c d : Char} (h : c < d) (as bs : List UInt8) :
    encodeChar c ++ as < encodeChar d ++ bs := by
  have hlt : c.toNat < d.toNat := h
  have hd : d.toNat < 0x110000 := by
    rcases d.valid with hvalid | ⟨-, hvalid⟩
    · exact Nat.lt_trans hvalid (by decide)
    · exact hvalid
  unfold encodeChar
  dsimp only
  generalize c.toNat = m at hlt
  generalize d.toNat = n at hlt hd
  -- The longer character has the larger first byte.
  have hshorter {a b : Nat} {as bs : List UInt8} (hlt : a < b) (hb : b < 256) :
      UInt8.ofNat a :: as < UInt8.ofNat b :: bs :=
    ofNat_cons_lt (Nat.le_of_lt hlt) hb fun he => absurd he (Nat.ne_of_lt hlt)
  split
  · split
    · exact hshorter hlt (by omega)
    · split
      · exact hshorter (by omega) (by omega)
      · split <;> exact hshorter (by omega) (by omega)
  · rw [if_neg (show ¬ n < 0x80 by omega)]
    split
    · split
      · refine ofNat_cons_lt (by omega) (by omega) fun h1 => ?_
        exact hshorter (by omega) (by omega)
      · split <;> exact hshorter (by omega) (by omega)
    · rw [if_neg (show ¬ n < 0x800 by omega)]
      split
      · split
        · refine ofNat_cons_lt (by omega) (by omega) fun h1 => ?_
          refine ofNat_cons_lt (by omega) (by omega) fun h2 => ?_
          exact hshorter (by omega) (by omega)
        · exact hshorter (by omega) (by omega)
      · rw [if_neg (show ¬ n < 0x10000 by omega)]
        refine ofNat_cons_lt (by omega) (by omega) fun h1 => ?_
        refine ofNat_cons_lt (by omega) (by omega) fun h2 => ?_
        refine ofNat_cons_lt (by omega) (by omega) fun h3 => ?_
        exact hshorter (by omega) (by omega)

theorem encode_lt_encode {cs ds : List Char} (h : cs < ds) : encode cs < encode ds := by
  induction h with
  | @nil d ds =>
    rw [encode_nil, encode_cons]
    cases hd : encodeChar d with
    | nil => exact absurd hd (encodeChar_ne_nil d)
    | cons b bs => exact .nil
  | cons h ih => exact List.append_left_lt ih
  | rel h => exact encodeChar_append_lt h _ _

/-- The bytes of texts stand in the order of the texts. -/
theorem bytesOf_lt_bytesOf {a b : String} (h : a < b) : bytesOf a < bytesOf b :=
  encode_lt_encode h

end BinaryAtlas.Text
