-- The tokens of JSON text. A machine reads the bytes one by one: between
-- tokens, inside a word (a literal or a number), or inside a text.

namespace BinaryAtlas.Json

/-! ## Bytes -/

abbrev comma : UInt8 := 0x2C
abbrev colon : UInt8 := 0x3A
abbrev quote : UInt8 := 0x22
abbrev backslash : UInt8 := 0x5C
abbrev openList : UInt8 := 0x5B
abbrev closeList : UInt8 := 0x5D
abbrev openObject : UInt8 := 0x7B
abbrev closeObject : UInt8 := 0x7D

/-- A space, tabulator, line feed or carriage return. -/
def isGap (b : UInt8) : Bool := b == 0x20 || b == 0x09 || b == 0x0A || b == 0x0D

/-- A byte that is a token on its own. -/
def isMark (b : UInt8) : Bool :=
  b == comma || b == colon || b == openList || b == closeList || b == openObject || b == closeObject

def hexValue? (b : UInt8) : Option Nat :=
  let n := b.toNat
  if 48 ≤ n ∧ n ≤ 57 then some (n - 48)
  else if 97 ≤ n ∧ n ≤ 102 then some (n - 87)
  else if 65 ≤ n ∧ n ≤ 70 then some (n - 55)
  else none

/-- What the byte after a backslash stands for, the hexadecimal escape
apart. -/
def escaped? (b : UInt8) : Option UInt8 :=
  if b = quote then some quote
  else if b = backslash then some backslash
  else if b = 0x2F then some 0x2F
  else if b = 0x62 then some 0x08
  else if b = 0x66 then some 0x0C
  else if b = 0x6E then some 0x0A
  else if b = 0x72 then some 0x0D
  else if b = 0x74 then some 0x09
  else none

/-- The byte that starts a hexadecimal escape after its backslash. -/
abbrev hexMark : UInt8 := 0x75

/-! ## Tokens -/

inductive Token
  | mark (byte : UInt8)
  | word (spelling : List UInt8)
  | text (spelling : List UInt8)
deriving DecidableEq

def Token.spelling : Token → List UInt8
  | mark byte => [byte]
  | word bytes => bytes
  | text bytes => quote :: bytes ++ [quote]

/-! ## The machine -/

/-- Where the machine stands. The bytes of a token that is not complete are
kept last first. -/
inductive Place
  | between
  | inWord (bytes : List UInt8)
  | inText (bytes : List UInt8)
  | afterBackslash (bytes : List UInt8)
  /-- Inside a hexadecimal escape, with so many digits to come after the
  next. -/
  | inHex (left : Nat) (bytes : List UInt8)

/-- The machine: its place, and the complete tokens, last first. -/
structure Lexer where
  place : Place := .between
  tokens : List Token := []

namespace Lexer

/-- One byte between tokens. -/
def start (l : Lexer) (b : UInt8) : Lexer :=
  if isGap b then { l with place := .between }
  else if isMark b then { place := .between, tokens := .mark b :: l.tokens }
  else if b = quote then { l with place := .inText [] }
  else { l with place := .inWord [b] }

def step (l : Lexer) (b : UInt8) : Option Lexer :=
  match l.place with
  | .between => some (l.start b)
  | .inWord bytes =>
    if isGap b || isMark b || b == quote then
      some (start { l with tokens := .word bytes.reverse :: l.tokens } b)
    else some { l with place := .inWord (b :: bytes) }
  | .inText bytes =>
    if b = quote then some { place := .between, tokens := .text bytes.reverse :: l.tokens }
    else if b = backslash then some { l with place := .afterBackslash (b :: bytes) }
    else if b < 0x20 then none
    else some { l with place := .inText (b :: bytes) }
  | .afterBackslash bytes =>
    if b = hexMark then some { l with place := .inHex 3 (b :: bytes) }
    else if (escaped? b).isSome then some { l with place := .inText (b :: bytes) }
    else none
  | .inHex left bytes =>
    if (hexValue? b).isSome then
      match left with
      | 0 => some { l with place := .inText (b :: bytes) }
      | left + 1 => some { l with place := .inHex left (b :: bytes) }
    else none

/-- The tokens at the end of the bytes: none inside a text. -/
def finish (l : Lexer) : Option (List Token) :=
  match l.place with
  | .between => some l.tokens.reverse
  | .inWord bytes => some (.word bytes.reverse :: l.tokens).reverse
  | _ => none

end Lexer

/-- The tokens of a text, if it is cut into tokens at all. -/
def tokens? (bytes : List UInt8) : Option (List Token) := do
  let l ← bytes.foldlM Lexer.step {}
  l.finish

end BinaryAtlas.Json
