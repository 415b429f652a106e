-- Sizes of types, in bytes. The size of a type definition is that of its
-- target, and the size of an array is its count times that of its element; a
-- chain of more than 64 of them counts as endless.
import BinaryAtlas.TypeGraph.Store

namespace BinaryAtlas

/-- The product, or the largest word if it does not fit. -/
def saturatingMul (a b : UInt32) : UInt32 := .ofNat (min (a.toNat * b.toNat) (UInt32.size - 1))

namespace TypeStore

/-- How many type definitions and arrays a size may lead through. -/
def maxHops : Nat := 64

/-- The size of the type in a slot, if no more than `hops` type definitions and
arrays lead to it. Text has no size. -/
def sizeWithin (store : TypeStore) (hops : Nat) (slot : Slot) : Option UInt32 :=
  match store.entity? slot with
  | none => none
  | some e =>
    match e.shape, hops with
    | .primitive size, _ => some size
    | .enumeration size _, _ => some size
    | .struct layout, _ => some layout.size
    | .union layout, _ => some layout.size
    | .signature _ _, _ => some store.pointerSize
    | .pointer _, _ => some store.pointerSize
    | .placeholder, _ => some 0
    | .string, _ => none
    | .typedef _, 0 => none
    | .typedef target, hops + 1 => store.sizeWithin hops target
    | .array _ _, 0 => none
    | .array element count, hops + 1 =>
      (store.sizeWithin hops element).map (saturatingMul · count)

/-- The size of the type in a slot. -/
def sizeOf? (store : TypeStore) (slot : Slot) : Option UInt32 := store.sizeWithin maxHops slot

end TypeStore

end BinaryAtlas
