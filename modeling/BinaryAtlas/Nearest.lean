-- The nearest item at or below an address, in items that stand in the order
-- of their addresses. The search halves the items that are left.

namespace BinaryAtlas

/-! ## The search -/

/-- The place of the last item, among the `size` items from `base` on, that
does not lie above the address, or `base` if all of them do. -/
def searchFrom (addresses : Array UInt32) (address : UInt32) (base size : Nat) : Nat :=
  if _h : 1 < size then
    let middle := base + size / 2
    let base := if addresses.getD middle 0 ≤ address then middle else base
    searchFrom addresses address base (size - size / 2)
  else base
termination_by size
decreasing_by omega

/-- The place of the last item at or below the address: none if all items lie
above it. -/
def nearest? (addresses : Array UInt32) (address : UInt32) : Option Nat :=
  let place := searchFrom addresses address 0 addresses.size
  match addresses[place]? with
  | some found => if found ≤ address then some place else none
  | none => none

end BinaryAtlas
