-- The laws of lossy text. Bytes that are no text give marks for what is broken,
-- but never an ASCII character that does not stand in them: where lossy text
-- begins with ASCII, the bytes do. An ASCII byte is never part of what is broken,
-- so the bytes before it and behind it are read on their own.
import BinaryAtlas.Proofs.AsciiText

namespace BinaryAtlas.Text

/-! ## Characters of more than one byte -/

/-- The character that was started takes more than one byte: the next byte brings
the value to 2 or more, and to 128 or more if it is the last one. -/
def Started.Wide (s : Started) : Prop :=
  2 ≤ s.value * 64 + (s.low - 0x80) ∧ (s.left = 0 → 0x80 ≤ s.value * 64 + (s.low - 0x80))

/-- A break, or a character that is no ASCII. A value that is no character counts
as the zero character. -/
def IsWide (o : Option Char) : Prop := ∀ c, o = some c → c.toNat = 0 ∨ 0x80 ≤ c.toNat

theorem isWide_none : IsWide none := by
  rintro c ⟨⟩

theorem isWide_ofNat {n : Nat} (h : 0x80 ≤ n) : IsWide (some (Char.ofNat n)) := by
  rintro c ⟨⟩
  unfold Char.ofNat
  by_cases hvalid : n.isValidChar
  · rw [dif_pos hvalid]
    exact .inr h
  · rw [dif_neg hvalid]
    exact .inl rfl

theorem lead_of_le {b : Nat} (h : 0x80 ≤ b) :
    lead b = ([none], none) ∨ ∃ s, lead b = ([], some s) ∧ s.Wide := by
  unfold lead Started.Wide
  rw [if_neg (Nat.not_lt.mpr h)]
  split
  · exact .inl rfl
  split
  · exact .inr ⟨_, rfl, by simp only; omega⟩
  split
  · exact .inr ⟨_, rfl, by decide⟩
  split
  · exact .inr ⟨_, rfl, by decide⟩
  split
  · exact .inr ⟨_, rfl, by simp only; omega⟩
  split
  · exact .inr ⟨_, rfl, by decide⟩
  split
  · exact .inr ⟨_, rfl, by simp only; omega⟩
  split
  · exact .inr ⟨_, rfl, by decide⟩
  · exact .inl rfl

/-- What comes of a started character is wide. -/
theorem scanFrom_started {s : Started} (hs : s.Wide) (bytes : List UInt8) :
    ∃ o rest, scanFrom (some s) bytes = o :: rest ∧ IsWide o := by
  induction bytes generalizing s with
  | nil => exact ⟨none, [], rfl, isWide_none⟩
  | cons b bytes ih =>
    obtain ⟨value, left, low, high⟩ := s
    simp only [Started.Wide] at hs
    by_cases hb : low ≤ b.toNat ∧ b.toNat ≤ high
    · cases left with
      | zero =>
        rw [scanFrom_last rfl hb.1 hb.2]
        exact ⟨_, _, rfl, isWide_ofNat (by omega)⟩
      | succ left =>
        rw [scanFrom_middle rfl hb.1 hb.2]
        apply ih
        simp only [Started.Wide]
        omega
    · rw [scanFrom, advance, Started.next, if_neg hb]
      exact ⟨none, _, rfl, isWide_none⟩

theorem scanFrom_of_le {b : UInt8} (h : 0x80 ≤ b.toNat) (bytes : List UInt8) :
    ∃ o rest, scanFrom none (b :: bytes) = o :: rest ∧ IsWide o := by
  rw [scanFrom, advance]
  obtain hlead | ⟨s, hlead, hs⟩ := lead_of_le h
  · rw [hlead]
    exact ⟨none, _, rfl, isWide_none⟩
  · rw [hlead]
    exact scanFrom_started hs bytes

/-! ## ASCII -/

/-- A first character that is ASCII comes from a first byte that is. -/
theorem decodeLossy_eq_cons {bytes : List UInt8} {c : Char} {cs : List Char} (hzero : c.toNat ≠ 0)
    (hc : c.toNat < 0x80) (h : decodeLossy bytes = c :: cs) :
    ∃ rest, bytes = asciiByte c :: rest ∧ decodeLossy rest = cs := by
  cases bytes with
  | nil => cases h
  | cons b rest =>
    by_cases hb : b.toNat < 0x80
    · have hscan : scan (b :: rest) = some (Char.ofNat b.toNat) :: scan rest := by
        simp [scan, scanFrom, advance, lead, hb]
      rw [decodeLossy, hscan, List.map_cons, List.cons.injEq] at h
      obtain ⟨rfl, rfl⟩ := h
      exact ⟨rest, by rw [Option.getD_some, asciiByte_ofNat], rfl⟩
    · obtain ⟨o, others, hscan, ho⟩ := scanFrom_of_le (Nat.not_lt.mp hb) rest
      rw [decodeLossy, scan, hscan, List.map_cons, List.cons.injEq] at h
      obtain ⟨hfirst, -⟩ := h
      cases o with
      | none =>
        rw [Option.getD_none] at hfirst
        rw [← hfirst] at hc
        exact absurd hc (by decide)
      | some c' =>
        obtain rfl : c' = c := hfirst
        have hwide := ho c' rfl
        omega

/-- Lossy text begins with ASCII characters just where the bytes do. -/
theorem prefix_decodeLossy_iff {first : List Char}
    (h : ∀ c ∈ first, c.toNat ≠ 0 ∧ c.toNat < 0x80) {bytes : List UInt8} :
    first <+: decodeLossy bytes ↔ encode first <+: bytes := by
  constructor
  · intro hfirst
    induction first generalizing bytes with
    | nil => exact List.nil_prefix
    | cons c first ih =>
      obtain ⟨tail, htail⟩ := hfirst
      obtain ⟨hzero, hascii⟩ := h c List.mem_cons_self
      obtain ⟨rest, rfl, hrest⟩ := decodeLossy_eq_cons hzero hascii htail.symm
      have hothers := ih (fun c' hc' => h c' (List.mem_cons_of_mem c hc')) ⟨tail, hrest.symm⟩
      rw [encode_cons, encodeChar_of_lt hascii]
      exact List.cons_prefix_cons.mpr ⟨rfl, hothers⟩
  · rintro ⟨rest, rfl⟩
    unfold decodeLossy scan
    rw [scanFrom_encode, List.map_append, List.map_map]
    exact ⟨(scanFrom none rest).map (·.getD '\uFFFD'), by simp [Function.comp_def]⟩

/-! ## Between ASCII bytes -/

/-- The next byte of a started character is none of ASCII. -/
theorem low_of_lead {n : Nat} {s : Started} (h : (lead n).2 = some s) : 0x80 ≤ s.low := by
  unfold lead at h
  grind

theorem low_of_advance {started : Option Started} {b : UInt8} {s : Started}
    (h : (advance started b).2 = some s) : 0x80 ≤ s.low := by
  cases started with
  | none => exact low_of_lead h
  | some old =>
    unfold advance Started.next at h
    simp only at h
    split at h
    · split at h
      · cases h
      · obtain rfl := Option.some.inj h
        exact Nat.le_refl _
    · exact low_of_lead h

theorem scanFrom_append_ascii {started : Option Started} (hlow : ∀ s ∈ started, 0x80 ≤ s.low)
    {b : UInt8} (hb : b.toNat < 0x80) (bytes rest : List UInt8) :
    scanFrom started (bytes ++ b :: rest) =
      scanFrom started bytes ++ some (Char.ofNat b.toNat) :: scanFrom none rest := by
  induction bytes generalizing started with
  | nil =>
    cases started with
    | none => simp [scanFrom, advance, lead, hb]
    | some s =>
      have hout : ¬ (s.low ≤ b.toNat ∧ b.toNat ≤ s.high) := by
        have := hlow s rfl
        omega
      simp [scanFrom, advance, Started.next, lead, hb, hout]
  | cons b' bytes ih =>
    have hnext : ∀ s ∈ (advance started b').2, 0x80 ≤ s.low := fun s hs => low_of_advance hs
    cases started with
    | none => simp [scanFrom, ih hnext]
    | some s => simp [scanFrom, ih hnext]

/-- An ASCII byte stands for itself, and what stands before it and behind it is read on
its own. -/
theorem decodeLossy_append_ascii {b : UInt8} (hb : b.toNat < 0x80) (bytes rest : List UInt8) :
    decodeLossy (bytes ++ b :: rest) =
      decodeLossy bytes ++ Char.ofNat b.toNat :: decodeLossy rest := by
  unfold decodeLossy scan
  rw [scanFrom_append_ascii (by simp) hb]
  simp

end BinaryAtlas.Text
