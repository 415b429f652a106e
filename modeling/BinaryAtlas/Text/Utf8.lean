-- Text as bytes. A character takes one to four bytes; a decoder reads the
-- bytes one by one and marks each longest broken start of a character, so
-- that damaged text can be shown or refused.

namespace BinaryAtlas.Text

/-! ## From characters to bytes -/

/-- The bytes of one character. -/
def encodeChar (c : Char) : List UInt8 :=
  let n := c.toNat
  if n < 0x80 then [.ofNat n]
  else if n < 0x800 then [.ofNat (0xC0 + n / 64), .ofNat (0x80 + n % 64)]
  else if n < 0x10000 then
    [.ofNat (0xE0 + n / 4096), .ofNat (0x80 + n / 64 % 64), .ofNat (0x80 + n % 64)]
  else
    [.ofNat (0xF0 + n / 262144), .ofNat (0x80 + n / 4096 % 64), .ofNat (0x80 + n / 64 % 64),
      .ofNat (0x80 + n % 64)]

/-- The bytes of a text, character after character. -/
def encode (cs : List Char) : List UInt8 := cs.flatMap encodeChar

def bytesOf (s : String) : List UInt8 := encode s.toList

/-! ## From bytes to characters -/

/-- The start of a character: the bits read so far, how many bytes follow
the next one, and the bounds of the next one. -/
structure Started where
  value : Nat
  left : Nat
  low : Nat := 0x80
  high : Nat := 0xBF

/-- What the first byte of a character says: a whole character, a break
(`none`), or a start that waits for more bytes. -/
def lead (b : Nat) : List (Option Char) × Option Started :=
  if b < 0x80 then ([some (Char.ofNat b)], none)
  else if b < 0xC2 then ([none], none)
  else if b < 0xE0 then ([], some { value := b - 0xC0, left := 0 })
  else if b = 0xE0 then ([], some { value := 0, left := 1, low := 0xA0 })
  else if b = 0xED then ([], some { value := 0xD, left := 1, high := 0x9F })
  else if b < 0xF0 then ([], some { value := b - 0xE0, left := 1 })
  else if b = 0xF0 then ([], some { value := 0, left := 2, low := 0x90 })
  else if b < 0xF4 then ([], some { value := b - 0xF0, left := 2 })
  else if b = 0xF4 then ([], some { value := 4, left := 2, high := 0x8F })
  else ([none], none)

/-- The next byte of a started character. A byte out of bounds breaks the
start and is read again as a first byte. -/
def Started.next (s : Started) (b : Nat) : List (Option Char) × Option Started :=
  if s.low ≤ b ∧ b ≤ s.high then
    let value := s.value * 64 + (b - 0x80)
    match s.left with
    | 0 => ([some (Char.ofNat value)], none)
    | left + 1 => ([], some { value, left })
  else
    let (out, started) := lead b
    (none :: out, started)

/-- One byte, with or without a started character before it. -/
def advance (started : Option Started) (b : UInt8) : List (Option Char) × Option Started :=
  match started with
  | none => lead b.toNat
  | some s => s.next b.toNat

/-- The characters of the bytes after a started character, a break for each
longest start that no character completes. -/
def scanFrom : Option Started → List UInt8 → List (Option Char)
  | none, [] => []
  | some _, [] => [none]
  | started, b :: bytes =>
    let (out, started) := advance started b
    out ++ scanFrom started bytes

/-- The characters of the bytes, with `none` for each break. -/
def scan (bytes : List UInt8) : List (Option Char) := scanFrom none bytes

/-- The text of the bytes, if no character is broken. -/
def decode? (bytes : List UInt8) : Option (List Char) := (scan bytes).mapM id

/-- The text of the bytes, with U+FFFD in the place of each break. -/
def decodeLossy (bytes : List UInt8) : List Char := (scan bytes).map (·.getD '\uFFFD')

/-! ## Byte positions in a text -/

def byteLength (cs : List Char) : Nat := (encode cs).length

/-- The text from byte `n` on: none if the text is shorter or if byte `n`
lies inside a character. -/
def dropBytes? : Nat → List Char → Option (List Char)
  | 0, cs => some cs
  | _ + 1, [] => none
  | n + 1, c :: cs =>
    let width := (encodeChar c).length
    if width ≤ n + 1 then dropBytes? (n + 1 - width) cs else none

@[simp]
theorem encode_nil : encode [] = [] := rfl

@[simp]
theorem encode_cons (c : Char) (cs : List Char) :
    encode (c :: cs) = encodeChar c ++ encode cs := rfl

@[simp]
theorem encode_append (a b : List Char) : encode (a ++ b) = encode a ++ encode b := by
  simp [encode]

/-! ## Decoding undoes encoding -/

theorem scanFrom_lead {b : UInt8} {n : Nat} {s : Started} (hb : b.toNat = n)
    (h : lead n = ([], some s)) (bytes : List UInt8) :
    scanFrom none (b :: bytes) = scanFrom (some s) bytes := by
  simp [scanFrom, advance, hb, h]

theorem scanFrom_middle {b : UInt8} {n value left low high : Nat} (hb : b.toNat = n)
    (hl : low ≤ n) (hh : n ≤ high) (bytes : List UInt8) :
    scanFrom (some ⟨value, left + 1, low, high⟩) (b :: bytes) =
      scanFrom (some { value := value * 64 + (n - 0x80), left }) bytes := by
  simp [scanFrom, advance, Started.next, hb, hl, hh]

theorem scanFrom_last {b : UInt8} {n value low high : Nat} (hb : b.toNat = n)
    (hl : low ≤ n) (hh : n ≤ high) (bytes : List UInt8) :
    scanFrom (some ⟨value, 0, low, high⟩) (b :: bytes) =
      some (Char.ofNat (value * 64 + (n - 0x80))) :: scanFrom none bytes := by
  simp [scanFrom, advance, Started.next, hb, hl, hh]

theorem lead_two {k : Nat} (h : 2 ≤ k) (h' : k < 32) :
    lead (0xC0 + k) = ([], some { value := k, left := 0 }) := by
  unfold lead
  rw [if_neg (by omega), if_neg (by omega), if_pos (by omega), Nat.add_sub_cancel_left]

theorem lead_three {k : Nat} (h : k < 16) :
    lead (0xE0 + k) = ([], some ⟨k, 1, if k = 0 then 0xA0 else 0x80,
      if k = 0xD then 0x9F else 0xBF⟩) := by
  unfold lead
  rw [if_neg (by omega), if_neg (by omega), if_neg (by omega)]
  split
  · obtain rfl : k = 0 := by omega
    rfl
  · split
    · obtain rfl : k = 0xD := by omega
      rfl
    · rw [if_pos (by omega), if_neg (by omega), if_neg (by omega), Nat.add_sub_cancel_left]

theorem lead_four {k : Nat} (h : k < 5) :
    lead (0xF0 + k) = ([], some ⟨k, 2, if k = 0 then 0x90 else 0x80,
      if k = 4 then 0x8F else 0xBF⟩) := by
  have : k = 0 ∨ k = 1 ∨ k = 2 ∨ k = 3 ∨ k = 4 := by omega
  rcases this with rfl | rfl | rfl | rfl | rfl <;> rfl

theorem toNat_ofNat_of_lt {n : Nat} (h : n < 256) : (UInt8.ofNat n).toNat = n := by
  simp [UInt8.toNat_ofNat', Nat.mod_eq_of_lt h]

/-- The bytes of one character read back as that character. -/
theorem scanFrom_encodeChar (c : Char) (bytes : List UInt8) :
    scanFrom none (encodeChar c ++ bytes) = some c :: scanFrom none bytes := by
  have hv : c.toNat < 0xD800 ∨ 0xDFFF < c.toNat ∧ c.toNat < 0x110000 := c.valid
  have hc : Char.ofNat c.toNat = c := by simp
  generalize hn : c.toNat = n at hv hc
  unfold encodeChar
  simp only [hn]
  split
  · rename_i h
    have hb : (UInt8.ofNat n).toNat = n := toNat_ofNat_of_lt (by omega)
    simp only [List.cons_append, List.nil_append, scanFrom, advance, hb, lead, if_pos h, hc]
  · split
    · rw [List.cons_append, List.cons_append, List.nil_append,
        scanFrom_lead (toNat_ofNat_of_lt (by omega)) (lead_two (by omega) (by omega)),
        scanFrom_last (toNat_ofNat_of_lt (by omega)) (by omega) (by omega),
        show n / 64 * 64 + (0x80 + n % 64 - 0x80) = n by omega, hc]
    · split
      · rw [List.cons_append, List.cons_append, List.cons_append, List.nil_append,
          scanFrom_lead (toNat_ofNat_of_lt (by omega)) (lead_three (by omega)),
          scanFrom_middle (toNat_ofNat_of_lt (by omega)) (by split <;> omega) (by split <;> omega),
          scanFrom_last (toNat_ofNat_of_lt (by omega)) (by omega) (by omega),
          show (n / 4096 * 64 + (0x80 + n / 64 % 64 - 0x80)) * 64 + (0x80 + n % 64 - 0x80) = n
            by omega, hc]
      · rw [List.cons_append, List.cons_append, List.cons_append, List.cons_append, List.nil_append,
          scanFrom_lead (toNat_ofNat_of_lt (by omega)) (lead_four (by omega)),
          scanFrom_middle (toNat_ofNat_of_lt (by omega)) (by split <;> omega) (by split <;> omega),
          scanFrom_middle (toNat_ofNat_of_lt (by omega)) (by omega) (by omega),
          scanFrom_last (toNat_ofNat_of_lt (by omega)) (by omega) (by omega),
          show ((n / 262144 * 64 + (0x80 + n / 4096 % 64 - 0x80)) * 64 +
              (0x80 + n / 64 % 64 - 0x80)) * 64 + (0x80 + n % 64 - 0x80) = n by omega, hc]

/-- The bytes of a text read back as that text, whatever follows. -/
theorem scanFrom_encode (cs : List Char) (bytes : List UInt8) :
    scanFrom none (encode cs ++ bytes) = cs.map some ++ scanFrom none bytes := by
  induction cs with
  | nil => simp
  | cons c cs ih => simp [List.append_assoc, scanFrom_encodeChar, ih]

@[simp]
theorem scan_encode (cs : List Char) : scan (encode cs) = cs.map some := by
  simpa [scan, scanFrom] using scanFrom_encode cs []

@[simp]
theorem decodeLossy_encode (cs : List Char) : decodeLossy (encode cs) = cs := by
  simp [decodeLossy, Function.comp_def]

@[simp]
theorem decode?_encode (cs : List Char) : decode? (encode cs) = some cs := by
  rw [decode?, scan_encode]
  induction cs with
  | nil => rfl
  | cons c cs ih => simp [List.mapM_cons, ih]

end BinaryAtlas.Text
