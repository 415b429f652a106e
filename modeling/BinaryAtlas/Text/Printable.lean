-- Printable characters: those that a message shows as they are, because they
-- have a shape of their own.
import BinaryAtlas.Text.Combining
import BinaryAtlas.Text.Unassigned

namespace BinaryAtlas.Text

/-! ## Without a shape -/

/-- The controls, format characters, separators, fillers and private
characters above the ASCII range, ascending: first and last of each run. -/
def shapeless : List (Nat × Nat) := [
  (0x80, 0xA0), (0xAD, 0xAD), (0x600, 0x605), (0x61C, 0x61C), (0x6DD, 0x6DD), (0x70F, 0x70F),
  (0x890, 0x891), (0x8E2, 0x8E2), (0x115F, 0x1160), (0x1680, 0x1680), (0x180E, 0x180E),
  (0x2000, 0x200F), (0x2028, 0x202F), (0x205F, 0x2064), (0x2066, 0x206F), (0x3000, 0x3000),
  (0x3164, 0x3164), (0xE000, 0xF8FF), (0xFEFF, 0xFEFF), (0xFFA0, 0xFFA0), (0xFFF9, 0xFFFB),
  (0x110BD, 0x110BD), (0x110CD, 0x110CD), (0x13430, 0x1343F), (0x1BCA0, 0x1BCA3),
  (0x1D173, 0x1D17A), (0xE0001, 0xE0001), (0xE0020, 0xE007F), (0xF0000, 0xFFFFD),
  (0x100000, 0x10FFFD)]

/-! ## The property -/

/-- The number lies in one of the runs. -/
def inRuns (runs : List (Nat × Nat)) (n : Nat) : Bool :=
  runs.any fun (first, last) => first ≤ n && n ≤ last

/-- A character with a shape of its own. -/
def isPrintable (c : Char) : Bool :=
  let n := c.toNat
  if n < 0x80 then 0x20 ≤ n && n < 0x7F
  else !(inRuns shapeless n || inRuns combining n || inRuns unassigned n)

end BinaryAtlas.Text
