-- Numerals: whole numbers in a radix up to sixteen, read from text with a
-- bound, and written with hexadecimal digits.

namespace BinaryAtlas.Text

/-! ## Digits -/

/-- The value of a digit of the radix, in either case. -/
def digit? (radix : Nat) (c : Char) : Option Nat :=
  let n := c.toNat
  let value :=
    if 48 ≤ n ∧ n ≤ 57 then n - 48
    else if 97 ≤ n ∧ n ≤ 102 then n - 87
    else if 65 ≤ n ∧ n ≤ 70 then n - 55
    else radix
  if value < radix then some value else none

/-- A hexadecimal digit, in either case. -/
def isHexDigit (c : Char) : Bool := (digit? 16 c).isSome

/-- The lower-case hexadecimal digit of a value below sixteen. -/
def hexDigit (value : Nat) : Char :=
  if value < 10 then Char.ofNat (48 + value) else Char.ofNat (87 + value)

/-- A written digit reads back. -/
theorem digit?_hexDigit : ∀ value < 16, digit? 16 (hexDigit value) = some value := by
  decide

/-! ## Reading -/

/-- The value of a run of digits, read after the digits of value `start`. -/
def digitsValue? (radix : Nat) (start : Nat) (cs : List Char) : Option Nat :=
  cs.foldlM (fun value c => (digit? radix c).map (value * radix + ·)) start

/-- The value of a text of one or more digits and nothing else. -/
def natural? (radix : Nat) (cs : List Char) : Option Nat :=
  if cs.isEmpty then none else digitsValue? radix 0 cs

/-- The text without one leading plus sign. -/
def dropPlus : List Char → List Char
  | '+' :: rest => rest
  | cs => cs

/-- A number of 32 bits, with or without one plus sign before its digits. -/
def word? (radix : Nat) (cs : List Char) : Option UInt32 :=
  match natural? radix (dropPlus cs) with
  | some n => if n < UInt32.size then some (.ofNat n) else none
  | none => none

/-! ## Writing -/

/-- The last `places` hexadecimal digits of a number. -/
def hexPlaces : Nat → Nat → List Char
  | 0, _ => []
  | places + 1, n => hexPlaces places (n / 16) ++ [hexDigit (n % 16)]

/-- An address as eight hexadecimal digits. -/
def hexAddress (address : UInt32) : List Char := hexPlaces 8 address.toNat

@[simp]
theorem length_hexPlaces (places n : Nat) : (hexPlaces places n).length = places := by
  induction places generalizing n with
  | zero => rfl
  | succ places ih => simp [hexPlaces, ih]

end BinaryAtlas.Text
