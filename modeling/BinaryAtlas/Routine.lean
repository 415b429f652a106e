-- The functions of a program: where each one is entered, which addresses it
-- covers, and which functions call it or are called by it.
import BinaryAtlas.Text.Numeral
import BinaryAtlas.TypeKey
import Std.Data.ExtTreeSet

namespace BinaryAtlas

/-! ## Regions -/

/-- A run of addresses with both its ends. A run that ends before it starts
covers nothing. -/
structure Region where
  first : UInt32
  last : UInt32
deriving DecidableEq

namespace Region

def contains (region : Region) (address : UInt32) : Bool :=
  region.first ≤ address && address ≤ region.last

/-- The distance between the ends, and one; a run that ends before it starts
counts as one. -/
def size (region : Region) : Nat := (region.last.toNat - region.first.toNat) + 1

end Region

/-! ## Functions -/

/-- A function of the program. Functions that call each other are named by
their places in the list of functions. -/
structure Routine where
  key : TypeKey
  address : UInt32
  regions : List Region := []
  index : Nat := 0
  ignored : Bool := false
  callers : Std.ExtTreeSet Nat := ∅
  callees : Std.ExtTreeSet Nat := ∅

namespace Routine

def name (routine : Routine) : String := routine.key.name

def contains (routine : Routine) (address : UInt32) : Bool :=
  routine.regions.any (·.contains address)

def size (routine : Routine) : Nat :=
  routine.regions.foldl (fun size region => size + region.size) 0

def label (routine : Routine) : String :=
  .ofList (Text.hexAddress routine.address) ++ " " ++ routine.key.path

end Routine

end BinaryAtlas
