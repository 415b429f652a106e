-- Blank characters, and text without the blanks at its ends. A blank is a
-- character of the White_Space property; the controls 1C to 1F, the
-- zero-width space and the byte order mark are none.

namespace BinaryAtlas.Text

/-! ## Blanks -/

def isBlank (c : Char) : Bool :=
  let n := c.toNat
  (9 ≤ n && n ≤ 13) || n == 0x20 || n == 0x85 || n == 0xA0 || n == 0x1680 ||
    (0x2000 ≤ n && n ≤ 0x200A) || n == 0x2028 || n == 0x2029 || n == 0x202F ||
    n == 0x205F || n == 0x3000

/-! ## Ends -/

/-- The text up to the last character that fails `p`. -/
def dropTrailing (p : Char → Bool) (cs : List Char) : List Char :=
  (cs.reverse.dropWhile p).reverse

def trim (cs : List Char) : List Char :=
  dropTrailing isBlank (cs.dropWhile isBlank)

/-- `trim` on a string. -/
def trimmed (s : String) : String := .ofList (trim s.toList)

@[simp]
theorem trim_nil : trim [] = [] := rfl

/-! ## Cuts -/

/-- The text before and after the last `mark`, if there is one. -/
def splitLast (mark : Char) : List Char → Option (List Char × List Char)
  | [] => none
  | c :: rest =>
    match splitLast mark rest with
    | some (before, after) => some (c :: before, after)
    | none => if c = mark then some ([], rest) else none

/-- The text before and after the first `mark`, if there is one. -/
def splitFirst (mark : Char) : List Char → Option (List Char × List Char)
  | [] => none
  | c :: rest =>
    if c = mark then some ([], rest)
    else (splitFirst mark rest).map fun (before, after) => (c :: before, after)

/-- The text without one leading `/`. -/
def dropSlash : List Char → List Char
  | '/' :: rest => rest
  | cs => cs

/-- A cut at the last `mark` puts back together. -/
theorem splitLast_eq_some {mark : Char} {cs before after : List Char}
    (h : splitLast mark cs = some (before, after)) : cs = before ++ mark :: after := by
  induction cs generalizing before after with
  | nil => simp [splitLast] at h
  | cons c rest ih =>
    simp only [splitLast] at h
    split at h
    · rename_i b a hb
      simp only [Option.some.injEq, Prod.mk.injEq] at h
      obtain ⟨rfl, rfl⟩ := h
      simp [← ih hb]
    · split at h <;> simp_all

/-- A cut at the first `mark` puts back together. -/
theorem splitFirst_eq_some {mark : Char} {cs before after : List Char}
    (h : splitFirst mark cs = some (before, after)) : cs = before ++ mark :: after := by
  induction cs generalizing before after with
  | nil => simp [splitFirst] at h
  | cons c rest ih =>
    simp only [splitFirst] at h
    split at h
    · simp_all
    · simp only [Option.map_eq_some_iff, Prod.mk.injEq, Prod.exists] at h
      obtain ⟨b, a, hb, rfl, rfl⟩ := h
      simp [← ih hb]

end BinaryAtlas.Text
