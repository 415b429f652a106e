-- Packed deltas. The addresses of consecutive lines are kept as differences,
-- each from the address before it, and the differences are packed into text:
-- one digit of radix 64 for a magnitude below 64, more digits in brackets for
-- a larger one, and a minus sign after a negative one.

namespace BinaryAtlas.Delta

/-! ## Digits -/

/-- The digits of radix 64, from 0 to 63. -/
def digits : List Char := [
  'A', 'B', 'C', 'D', 'E', 'F', 'G', 'H', 'I', 'J', 'K', 'L', 'M', 'N', 'O', 'P',
  'Q', 'R', 'S', 'T', 'U', 'V', 'W', 'X', 'Y', 'Z', 'a', 'b', 'c', 'd', 'e', 'f',
  'g', 'h', 'i', 'j', 'k', 'l', 'm', 'n', 'o', 'p', 'q', 'r', 's', 't', 'u', 'v',
  'w', 'x', 'y', 'z', '0', '1', '2', '3', '4', '5', '6', '7', '8', '9', '+', '/']

/-- The digit of a value below 64. -/
def digit (value : Nat) : Char := digits.getD value 'A'

def digit? (c : Char) : Option Nat := digits.idxOf? c

/-- The digits of a number, without zeros before the first that is none. Six
places hold every magnitude of 32 bits. -/
def places (n : Nat) : List Nat :=
  let all :=
    [n / 0x40000000 % 64, n / 0x1000000 % 64, n / 0x40000 % 64, n / 0x1000 % 64, n / 64 % 64,
      n % 64]
  all.dropWhile (· == 0)

/-! ## Packing -/

def packMagnitude (n : Nat) : List Char :=
  if n < 64 then [digit n] else '[' :: (places n).map digit ++ [']']

def packOne (delta : Int32) : List Char :=
  packMagnitude delta.toInt.natAbs ++ if delta < 0 then ['-'] else []

def pack (deltas : List Int32) : List Char := deltas.flatMap packOne

/-! ## Unpacking -/

/-- The reader of packed deltas: the value inside an open bracket, and the
deltas so far, last first. -/
structure Reader where
  bracket : Option Int32 := none
  deltas : List Int32 := []

/-- The deltas with the last one negated. -/
def negateLast : List Int32 → List Int32
  | [] => []
  | last :: deltas => -last :: deltas

/-- One character. One that means nothing where it stands is passed over. -/
def Reader.step (r : Reader) (c : Char) : Reader :=
  if c = '-' then { r with deltas := negateLast r.deltas }
  else if c = '[' then { r with bracket := some 0 }
  else
    match r.bracket, digit? c with
    | some value, some d => { r with bracket := some (value * 64 + Int32.ofNat d) }
    | some value, none => if c = ']' then { deltas := value :: r.deltas } else r
    | none, some d => { r with deltas := Int32.ofNat d :: r.deltas }
    | none, none => r

/-- The deltas of a text. A bracket that nothing closes counts for nothing. -/
def unpack (packed : List Char) : List Int32 := (packed.foldl Reader.step {}).deltas.reverse

/-! ## Addresses -/

/-- The address at a delta from another. -/
def shift (address : UInt32) (delta : Int32) : UInt32 := address + delta.toUInt32

/-- The addresses that the deltas lead to, one after the other. -/
def toAddresses : UInt32 → List Int32 → List UInt32
  | _, [] => []
  | last, delta :: deltas => shift last delta :: toAddresses (shift last delta) deltas

/-- The deltas between addresses, the first from `last`. -/
def ofAddresses : UInt32 → List UInt32 → List Int32
  | _, [] => []
  | last, address :: addresses => (address - last).toInt32 :: ofAddresses address addresses

end BinaryAtlas.Delta
