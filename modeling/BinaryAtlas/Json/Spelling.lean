-- How JSON spells its leaves: texts with escapes, numbers, and the three
-- literals.
import BinaryAtlas.Json.Basic
import BinaryAtlas.Json.Token
import BinaryAtlas.Text.Utf8

namespace BinaryAtlas.Json

/-! ## Texts, written -/

/-- A hexadecimal digit as a byte. -/
def hexByte (value : Nat) : UInt8 := .ofNat (if value < 10 then 48 + value else 87 + value)

/-- The bytes for one character inside a text. A quote, a backslash and the
controls below the space are escaped, everything else stands as it is. -/
def spellChar (c : Char) : List UInt8 :=
  let n := c.toNat
  if n = 0x22 then [backslash, quote]
  else if n = 0x5C then [backslash, backslash]
  else if n = 0x08 then [backslash, 0x62]
  else if n = 0x0C then [backslash, 0x66]
  else if n = 0x0A then [backslash, 0x6E]
  else if n = 0x0D then [backslash, 0x72]
  else if n = 0x09 then [backslash, 0x74]
  else if n < 0x20 then [backslash, hexMark, 0x30, 0x30, hexByte (n / 16), hexByte (n % 16)]
  else Text.encodeChar c

/-- The bytes for a text between its quotes. -/
def spellText (cs : List Char) : List UInt8 := cs.flatMap spellChar

/-! ## Texts, read -/

/-- Where the reader of a text stands: between characters, after a backslash,
or in a hexadecimal escape with the value so far. -/
inductive EscapePlace
  | plain
  | afterBackslash
  | inHex (left : Nat) (value : Nat)
deriving DecidableEq

/-- The reader of a text: its place, a high surrogate that waits for its
other half, and the bytes so far, last first. -/
structure Unescape where
  place : EscapePlace := .plain
  high : Option Nat := none
  bytes : List UInt8 := []

namespace Unescape

/-- A code unit of a hexadecimal escape. A high surrogate waits for a low
one, and neither half stands alone. -/
def takeUnit (u : Unescape) (unit : Nat) : Option Unescape :=
  match u.high with
  | some high =>
    if 0xDC00 ≤ unit ∧ unit ≤ 0xDFFF then
      let c := Char.ofNat (0x10000 + (high - 0xD800) * 0x400 + (unit - 0xDC00))
      some { bytes := (Text.encodeChar c).reverse ++ u.bytes }
    else none
  | none =>
    if 0xD800 ≤ unit ∧ unit ≤ 0xDBFF then some { high := some unit, bytes := u.bytes }
    else if 0xDC00 ≤ unit ∧ unit ≤ 0xDFFF then none
    else some { bytes := (Text.encodeChar (Char.ofNat unit)).reverse ++ u.bytes }

def step (u : Unescape) (b : UInt8) : Option Unescape :=
  match u.place with
  | .plain =>
    if b = backslash then some { u with place := .afterBackslash }
    else if u.high.isSome then none
    else some { u with bytes := b :: u.bytes }
  | .afterBackslash =>
    if b = hexMark then some { u with place := .inHex 3 0 }
    else if u.high.isSome then none
    else (escaped? b).map fun byte => { bytes := byte :: u.bytes }
  | .inHex left value =>
    match hexValue? b with
    | none => none
    | some digit =>
      match left with
      | 0 => u.takeUnit (value * 16 + digit)
      | left + 1 => some { u with place := .inHex left (value * 16 + digit) }

def finish (u : Unescape) : Option (List UInt8) :=
  match u.place, u.high with
  | .plain, none => some u.bytes.reverse
  | _, _ => none

end Unescape

/-- The text that a spelling stands for, if it holds no lone half of a
surrogate pair and no broken character. -/
def readText? (spelling : List UInt8) : Option (List Char) := do
  let u ← spelling.foldlM Unescape.step {}
  let bytes ← u.finish
  Text.decode? bytes

/-! ## Numbers -/

def isDigit (b : UInt8) : Bool := 0x30 ≤ b && b ≤ 0x39

/-- The rest after one or more digits. -/
def afterDigits? (bytes : List UInt8) : Option (List UInt8) :=
  if (bytes.takeWhile isDigit).isEmpty then none else some (bytes.dropWhile isDigit)

/-- The rest after the whole part of a number: a zero, or digits that start
with none. -/
def afterWhole? : List UInt8 → Option (List UInt8)
  | 0x30 :: rest => some rest
  | bytes => afterDigits? bytes

/-- The rest after a fraction, which may be absent. -/
def afterFraction? : List UInt8 → Option (List UInt8)
  | 0x2E :: rest => afterDigits? rest
  | bytes => some bytes

/-- The rest after a sign of an exponent, which may be absent. -/
def afterSign : List UInt8 → List UInt8
  | b :: rest => if b = 0x2B ∨ b = 0x2D then rest else b :: rest
  | [] => []

/-- The rest after an exponent, which may be absent. -/
def afterExponent? : List UInt8 → Option (List UInt8)
  | b :: rest => if b = 0x65 ∨ b = 0x45 then afterDigits? (afterSign rest) else some (b :: rest)
  | [] => some []

/-- The rest after a minus sign, which may be absent. -/
def afterMinus : List UInt8 → List UInt8
  | 0x2D :: rest => rest
  | bytes => bytes

/-- The bytes spell a number: a sign, a whole part, a fraction, an exponent,
and nothing more. -/
def isNumber (bytes : List UInt8) : Bool :=
  ((afterWhole? (afterMinus bytes)).bind fun rest =>
    (afterFraction? rest).bind afterExponent?) == some []

/-- The value of a run of digits, read after digits of value `start`. -/
def digitsValue (start : Nat) (digits : List UInt8) : Nat :=
  digits.foldl (fun value b => value * 10 + (b.toNat - 48)) start

/-- A number without sign, fraction and exponent. -/
def readNatural? (spelling : List UInt8) : Option Nat :=
  if spelling.isEmpty || !spelling.all isDigit then none else some (digitsValue 0 spelling)

/-- The decimal digits of a number. -/
def spellNatural (n : Nat) : List UInt8 :=
  (Nat.toDigits 10 n).map fun c => .ofNat c.toNat

/-! ## Words -/

def nullWord : List UInt8 := [0x6E, 0x75, 0x6C, 0x6C]
def trueWord : List UInt8 := [0x74, 0x72, 0x75, 0x65]
def falseWord : List UInt8 := [0x66, 0x61, 0x6C, 0x73, 0x65]

/-- The leaf that a word spells. -/
def ofWord? (word : List UInt8) : Option Json :=
  if word = nullWord then some .null
  else if word = trueWord then some (.flag true)
  else if word = falseWord then some (.flag false)
  else if isNumber word then some (.number word)
  else none

/-! ## Leaves from values -/

def ofString (s : String) : Json := .text (spellText s.toList)

def ofNat (n : Nat) : Json := .number (spellNatural n)

def string? : Json → Option String
  | .text spelling => (readText? spelling).map String.ofList
  | _ => none

/-- A value that is a number without sign, fraction and exponent. -/
def natural? : Json → Option Nat
  | .number spelling => readNatural? spelling
  | _ => none

end BinaryAtlas.Json
