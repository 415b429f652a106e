-- The lines of a byte text. A line ends with a line feed; what follows the
-- last line feed is a line as well, unless it is empty. The scanner reads the
-- same lines from chunks of the text and keeps no more than a window of each.
import BinaryAtlas.Text.Utf8

namespace BinaryAtlas

abbrev lineFeed : UInt8 := 0x0A
abbrev carriageReturn : UInt8 := 0x0D

/-! ## Cutting -/

/-- The bytes of a line without its line feed, and whether it had one. -/
structure Line where
  bytes : List UInt8
  ended : Bool

namespace Line

/-- One byte before the lines of the bytes after it. -/
def consByte (b : UInt8) (lines : List Line) : List Line :=
  if b = lineFeed then { bytes := [], ended := true } :: lines
  else
    match lines with
    | [] => [{ bytes := [b], ended := false }]
    | line :: lines => { line with bytes := b :: line.bytes } :: lines

/-- The lines of a text. -/
def cut (bytes : List UInt8) : List Line := bytes.foldr consByte []

/-- The number of bytes of a line in its text. -/
def width (line : Line) : Nat := line.bytes.length + if line.ended then 1 else 0

/-- The lines with the positions of their first bytes, the first at `start`. -/
def positioned : Nat → List Line → List (Nat × Line)
  | _, [] => []
  | start, line :: lines => (start, line) :: positioned (start + line.width) lines

/-- The bytes without one carriage return at the end. -/
def dropReturn (bytes : List UInt8) : List UInt8 :=
  if bytes.getLast? = some carriageReturn then bytes.dropLast else bytes

/-- The text of a line. A carriage return before the line feed belongs to
the end of the line. -/
def text (line : Line) : List Char :=
  Text.decodeLossy (if line.ended then dropReturn line.bytes else line.bytes)

end Line

/-! ## Scanning -/

/-- The scanner: the position of the next byte, the position of the first
byte of the line, the bytes of the line that it keeps, and the lines so far,
last first. -/
structure LineScanner where
  position : Nat := 0
  lineStart : Nat := 0
  kept : List UInt8 := []
  seen : List (Nat × List UInt8) := []

namespace LineScanner

/-- More bytes of the line, of which those that fit into the window are
kept. -/
def extend (window : Nat) (s : LineScanner) (bytes : List UInt8) : LineScanner :=
  { s with
    position := s.position + bytes.length
    kept := s.kept ++ bytes.take (window - s.kept.length) }

/-- A line feed: the line is seen, and the next one starts after it. -/
def endLine (s : LineScanner) : LineScanner :=
  { position := s.position + 1, lineStart := s.position + 1, kept := [],
    seen := (s.lineStart, s.kept) :: s.seen }

theorem length_afterLine {chunk rest : List UInt8} {b : UInt8}
    (h : chunk.dropWhile (· != lineFeed) = b :: rest) : rest.length < chunk.length := by
  have le : (chunk.dropWhile (· != lineFeed)).length ≤ chunk.length :=
    (List.dropWhile_suffix _).length_le
  rw [h, List.length_cons] at le
  exact le

/-- One chunk, line by line. -/
def feed (window : Nat) (s : LineScanner) (chunk : List UInt8) : LineScanner :=
  match _h : chunk.dropWhile (· != lineFeed) with
  | [] => s.extend window (chunk.takeWhile (· != lineFeed))
  | _ :: rest => feed window (s.extend window (chunk.takeWhile (· != lineFeed))).endLine rest
termination_by chunk.length
decreasing_by exact length_afterLine _h

def finish (s : LineScanner) : List (Nat × List UInt8) :=
  (if s.lineStart < s.position then (s.lineStart, s.kept) :: s.seen else s.seen).reverse

end LineScanner

/-- The first bytes of each line, at most `window` of them, with the position
of the line. -/
def linePrefixes (window : Nat) (chunks : List (List UInt8)) : List (Nat × List UInt8) :=
  (chunks.foldl (LineScanner.feed window) {}).finish

/-- The text in chunks of `capacity` bytes; without any capacity, none. -/
def chunksOf (capacity : Nat) (bytes : List UInt8) : List (List UInt8) :=
  if _h : capacity = 0 ∨ bytes = [] then []
  else bytes.take capacity :: chunksOf capacity (bytes.drop capacity)
termination_by bytes.length
decreasing_by
  have : bytes.length ≠ 0 := fun e => _h (Or.inr (List.length_eq_zero_iff.1 e))
  simp only [List.length_drop]
  omega

end BinaryAtlas
