-- Type names that spell a type. A name that ends in a star spells a pointer,
-- a name with a number in its first brackets spells an array, and what is
-- left of such a name spells the type inside.
import BinaryAtlas.Text.Blank
import BinaryAtlas.Text.Numeral

namespace BinaryAtlas

/-! ## Parts of a name -/

namespace TypeName

/-- The name of a pointer to text, in every scope. -/
def charPointerName : List Char := ['c', 'h', 'a', 'r', ' ', '*']

/-- The name that a pointer points at: a name without its last star, and
without blanks around it. -/
def pointee? (name : List Char) : Option (List Char) :=
  if name.getLast? = some '*' then some (Text.trim name.dropLast) else none

/-- The element and the count of an array: a name without its first brackets,
and the number in them. -/
def element? (name : List Char) : Option (List Char × UInt32) := do
  let (before, rest) ← Text.splitFirst '[' name
  let (digits, after) ← Text.splitFirst ']' rest
  let count ← Text.word? 10 (Text.trim digits)
  some (Text.trim (before ++ after), count)

/-- A star or an opening bracket. -/
def isMark (c : Char) : Bool := c == '*' || c == '['

/-- The stars and opening brackets of a name. -/
def marks (name : List Char) : Nat := name.countP isMark

theorem marks_trim_le (name : List Char) : marks (Text.trim name) ≤ marks name := by
  have h : (Text.trim name).Sublist name := by
    unfold Text.trim Text.dropTrailing
    have h1 : (name.dropWhile Text.isBlank).Sublist name := List.dropWhile_sublist _
    have h2 := List.dropWhile_sublist Text.isBlank (l := (name.dropWhile Text.isBlank).reverse)
    have h3 := h2.reverse
    rw [List.reverse_reverse] at h3
    exact h3.trans h1
  exact h.countP_le

/-- A pointer's name has more marks than the name that it points at. -/
theorem marks_pointee {name rest : List Char} (h : pointee? name = some rest) :
    marks rest < marks name := by
  unfold pointee? at h
  split at h
  · rename_i hl
    obtain ⟨init, rfl⟩ := List.getLast?_eq_some_iff.1 hl
    simp only [List.dropLast_concat, Option.some.injEq] at h
    subst h
    have := marks_trim_le init
    have star : marks (init ++ ['*']) = marks init + 1 := by simp [marks, isMark]
    omega
  · simp at h

/-- An array's name has more marks than the name of its element. -/
theorem marks_element {name rest : List Char} {count : UInt32}
    (h : element? name = some (rest, count)) : marks rest < marks name := by
  unfold element? at h
  simp only [Option.bind_eq_bind, Option.bind_eq_some_iff, Option.some.injEq, Prod.mk.injEq,
    Prod.exists] at h
  obtain ⟨before, inner, h1, digits, after, h2, _, _, rfl, _⟩ := h
  have e1 := Text.splitFirst_eq_some h1
  have e2 := Text.splitFirst_eq_some h2
  subst e2
  subst e1
  have t := marks_trim_le (before ++ after)
  have opens : isMark '[' = true := rfl
  have more : marks (before ++ after) < marks (before ++ '[' :: (digits ++ ']' :: after)) := by
    simp only [marks, List.countP_append, List.countP_cons_of_pos opens]
    have := (List.sublist_cons_self ']' after).countP_le (p := isMark)
    omega
  exact Nat.lt_of_le_of_lt t more

end TypeName

/-! ## Names taken apart -/

/-- What a name spells, layer by layer. -/
inductive TypeName
  /-- A pointer to text. -/
  | charPointer
  | pointer (name : String) (pointee : TypeName)
  | array (name : String) (element : TypeName) (count : UInt32)
  /-- A name that spells no more than itself. -/
  | plain (name : String)
deriving DecidableEq

namespace TypeName

def spelling : TypeName → String
  | charPointer => .ofList charPointerName
  | pointer name _ => name
  | array name _ _ => name
  | plain name => name

/-- The name taken apart. -/
def ofChars (name : List Char) : TypeName :=
  if name = charPointerName then charPointer
  else
    match _hp : pointee? name with
    | some rest => pointer (.ofList name) (ofChars rest)
    | none =>
      match _he : element? name with
      | some (rest, count) => array (.ofList name) (ofChars rest) count
      | none => plain (.ofList name)
termination_by marks name
decreasing_by
  · exact marks_pointee _hp
  · exact marks_element _he

/-- A name taken apart still spells itself. -/
theorem spelling_ofChars (name : List Char) : (ofChars name).spelling = .ofList name := by
  rw [ofChars]
  split
  · simp_all [spelling]
  · split
    · rfl
    · split <;> rfl

end TypeName

end BinaryAtlas
