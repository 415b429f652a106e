-- A dump of decompiled code. The code of each function stands under a marker
-- line with the address of its entry and the packed deltas of its lines. One
-- scan finds where the markers stand; a function is then read from its marker
-- on, without the text before it.
import BinaryAtlas.Dump.Delta
import BinaryAtlas.Dump.Line
import BinaryAtlas.Fault
import BinaryAtlas.Text.Numeral
import Std.Data.ExtTreeMap

namespace BinaryAtlas

/-! ## The code of one function -/

/-- The lines of one function, each with the address it came from. -/
structure CodeBlock where
  address : UInt32
  lines : List String
  addresses : List UInt32
deriving DecidableEq

namespace CodeBlock

def pairs (block : CodeBlock) : List (UInt32 × String) := block.addresses.zip block.lines

def linesAt (block : CodeBlock) (address : UInt32) : List String :=
  (block.pairs.filter (·.1 == address)).map (·.2)

end CodeBlock

/-! ## Markers -/

namespace Marker

/-- How a marker line begins. -/
def start : List Char := ['/', '/', '!', 'L', '!', ' ']

def addressDigits : Nat := 8

/-- The bytes of a marker line up to the end of its address. -/
def window : Nat := start.length + addressDigits

/-- The address of a line that is a marker: the marker's start, then eight
hexadecimal digits. -/
def address? (bytes : List UInt8) : Option UInt32 :=
  let digits := ((bytes.drop start.length).take addressDigits).map fun b => Char.ofNat b.toNat
  if (Text.encode start).isPrefixOf bytes ∧ digits.length = addressDigits then
    (Text.digitsValue? 16 0 digits).map UInt32.ofNat
  else none

/-- The packed deltas of a line that starts like a marker and is long enough
for one. They follow the address and one more byte. -/
def packed? (line : List Char) : Option (List Char) :=
  if start.isPrefixOf line ∧ window ≤ Text.byteLength line then
    some ((Text.dropBytes? (window + 1) line).getD [])
  else none

/-- The marker line of a function whose lines have these addresses. -/
def write (address : UInt32) (addresses : List UInt32) : List Char :=
  start ++ Text.hexAddress address ++ ' ' :: Delta.pack (Delta.ofAddresses address addresses)

end Marker

/-! ## Reading and writing a block -/

namespace CodeBlock

/-- The block at the start of the lines: a marker, then as many lines as it
has deltas. -/
def read? (address : UInt32) : List Line → Option CodeBlock
  | [] => none
  | marker :: lines =>
    match Marker.packed? marker.text with
    | none => none
    | some packed =>
      let addresses := Delta.toAddresses address (Delta.unpack packed)
      let code := lines.take addresses.length
      if code.length = addresses.length then
        some { address, lines := code.map fun line => .ofList line.text, addresses }
      else none

/-- The text of a block. -/
def write (address : UInt32) (lines : List (UInt32 × String)) : List Char :=
  Marker.write address (lines.map (·.1)) ++ '\n' ::
    lines.flatMap fun line => line.2.toList ++ ['\n']

end CodeBlock

/-! ## The dump -/

/-- A dump: its bytes, and where the markers stood when it was scanned. -/
structure Dump where
  bytes : List UInt8
  index : Std.ExtTreeMap UInt32 Nat

namespace Dump

/-- One more line of the scan. A later marker of an address counts. -/
def noteLine (index : Std.ExtTreeMap UInt32 Nat) (line : Nat × List UInt8) :
    Std.ExtTreeMap UInt32 Nat :=
  match Marker.address? line.2 with
  | some address => index.insert address line.1
  | none => index

/-- How many bytes a scan takes at once. -/
def chunkSize : Nat := 8192

/-- The dump of a text. -/
def ofBytes (bytes : List UInt8) : Dump :=
  { bytes, index := (linePrefixes Marker.window (chunksOf chunkSize bytes)).foldl noteLine ∅ }

/-- The dump in a file: none of it is there without the file. -/
def ofFile (contents : Option (List UInt8)) : Except Fault Dump :=
  match contents with
  | some bytes => .ok (ofBytes bytes)
  | none => .error .fileNotFound

def size (dump : Dump) : Nat := dump.index.size

/-- The entry addresses, ascending. -/
def addresses (dump : Dump) : List UInt32 := dump.index.keys

def contains (dump : Dump) (address : UInt32) : Bool := dump.index.contains address

def offset? (dump : Dump) (address : UInt32) : Option Nat := dump.index[address]?

/-- The code of the function at an address: none without a marker, or where
the text no longer holds all of it. -/
def block? (dump : Dump) (address : UInt32) : Option CodeBlock :=
  match dump.offset? address with
  | some offset => CodeBlock.read? address (Line.cut (dump.bytes.drop offset))
  | none => none

/-- The dump with other bytes; what the scan found stays. -/
def replaceBytes (dump : Dump) (bytes : List UInt8) : Dump := { dump with bytes }

end Dump

end BinaryAtlas
