-- Call traces. A trace is a listing of instructions, one on a line; the lines
-- that count are calls, and all others are passed over, also those that hold
-- no proper text.
import BinaryAtlas.Dump.Line
import BinaryAtlas.Text.Blank
import BinaryAtlas.Text.Numeral

namespace BinaryAtlas

/-- A call instruction: its address, and its target as the listing has it. -/
structure CallRecord where
  address : UInt32
  target : String
deriving DecidableEq

namespace CallRecord

/-! ## Runs -/

/-- The longest run of `p` at the start, if it is not empty, and the rest. -/
def run? (p : Char → Bool) (cs : List Char) : Option (List Char × List Char) :=
  if (cs.takeWhile p).isEmpty then none else some (cs.takeWhile p, cs.dropWhile p)

/-- The rest after blanks, of which there must be one. -/
def afterBlanks? (cs : List Char) : Option (List Char) := (run? Text.isBlank cs).map (·.2)

/-- The rest after a word that must stand at the start. -/
def afterWord? (word cs : List Char) : Option (List Char) :=
  if word.isPrefixOf cs then some (cs.drop word.length) else none

/-! ## Lines -/

def addressDigits : Nat := 8

def callWord : List Char := ['C', 'A', 'L', 'L']

/-- The call on a line: eight hexadecimal digits, the bytes of the
instruction in hexadecimal digits, the call word and a target, with blanks
between them and perhaps after them. -/
def ofLine? (line : List Char) : Option CallRecord := do
  let digits := line.take addressDigits
  if digits.length ≠ addressDigits then none
  let address ← Text.digitsValue? 16 0 digits
  let rest ← afterBlanks? (line.drop addressDigits)
  let (_, rest) ← run? Text.isHexDigit rest
  let rest ← afterBlanks? rest
  let rest ← afterWord? callWord rest
  let rest ← afterBlanks? rest
  let (target, rest) ← run? (fun c => !Text.isBlank c) rest
  if rest.all Text.isBlank then some { address := .ofNat address, target := .ofList target }
  else none

/-! ## Traces -/

/-- A carriage return or a line feed. -/
def isLineEnd (c : Char) : Bool := c == '\r' || c == '\n'

/-- The text of a trace line, without all carriage returns at its end. -/
def lineText (line : Line) : List Char :=
  Text.dropTrailing isLineEnd (Text.decodeLossy line.bytes)

/-- The calls of a trace, in order. -/
def readTrace (bytes : List UInt8) : List CallRecord :=
  (Line.cut bytes).filterMap fun line => ofLine? (lineText line)

end CallRecord

end BinaryAtlas
