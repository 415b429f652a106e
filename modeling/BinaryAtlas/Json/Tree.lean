-- JSON values as token sequences. A machine builds a value from its tokens
-- with a stack of the lists and objects that stand open, so values nest to
-- any depth.
import BinaryAtlas.Json.Spelling

namespace BinaryAtlas.Json

/-! ## From values to tokens -/

mutual

/-- The tokens of a value. -/
def tokens : Json → List Token
  | .null => [.word nullWord]
  | .flag true => [.word trueWord]
  | .flag false => [.word falseWord]
  | .number spelling => [.word spelling]
  | .text spelling => [.text spelling]
  | .list [] => [.mark openList, .mark closeList]
  | .list (item :: items) => .mark openList :: tokens item ++ itemTokens items ++ [.mark closeList]
  | .object [] => [.mark openObject, .mark closeObject]
  | .object ((name, value) :: entries) =>
    .mark openObject :: .text name :: .mark colon :: tokens value ++ entryTokens entries ++
      [.mark closeObject]

/-- The tokens of the items after the first. -/
def itemTokens : List Json → List Token
  | [] => []
  | item :: items => .mark comma :: tokens item ++ itemTokens items

/-- The tokens of the entries after the first. -/
def entryTokens : List (List UInt8 × Json) → List Token
  | [] => []
  | (name, value) :: entries =>
    .mark comma :: .text name :: .mark colon :: tokens value ++ entryTokens entries

end

/-- The bytes of a value, without gaps. -/
def render (value : Json) : List UInt8 := (tokens value).flatMap Token.spelling

/-! ## From tokens to values -/

/-- A list or object that stands open, with what it holds, last first. -/
inductive Frame
  | list (items : List Json)
  | object (entries : List (List UInt8 × Json)) (name : List UInt8)

/-- What the machine takes next. -/
inductive Expect
  | value
  | itemOrClose
  | entryOrClose (entries : List (List UInt8 × Json))
  | entry (entries : List (List UInt8 × Json))
  | colon (entries : List (List UInt8 × Json)) (name : List UInt8)
  | afterValue (value : Json)

structure Builder where
  frames : List Frame := []
  expect : Expect := .value

namespace Builder

/-- A token where a value must stand. -/
def value? (b : Builder) : Token → Option Builder
  | .word spelling => (ofWord? spelling).map fun leaf => { b with expect := .afterValue leaf }
  | .text spelling => some { b with expect := .afterValue (.text spelling) }
  | .mark byte =>
    if byte = openList then some { frames := .list [] :: b.frames, expect := .itemOrClose }
    else if byte = openObject then some { b with expect := .entryOrClose [] }
    else none

/-- A token where the name of an entry must stand. -/
def entry? (b : Builder) (entries : List (List UInt8 × Json)) : Token → Option Builder
  | .text name => some { b with expect := .colon entries name }
  | _ => none

def step (b : Builder) (token : Token) : Option Builder :=
  match b.expect, b.frames with
  | .value, _ => b.value? token
  | .itemOrClose, frames =>
    if token = .mark closeList then some { frames := frames.tail, expect := .afterValue (.list []) }
    else b.value? token
  | .entryOrClose entries, _ =>
    if token = .mark closeObject then some { b with expect := .afterValue (.object []) }
    else b.entry? entries token
  | .entry entries, _ => b.entry? entries token
  | .colon entries name, frames =>
    if token = .mark colon then some { frames := .object entries name :: frames }
    else none
  | .afterValue value, .list items :: frames =>
    if token = .mark comma then some { frames := .list (value :: items) :: frames }
    else if token = .mark closeList then
      some { frames, expect := .afterValue (.list (value :: items).reverse) }
    else none
  | .afterValue value, .object entries name :: frames =>
    if token = .mark comma then some { frames, expect := .entry ((name, value) :: entries) }
    else if token = .mark closeObject then
      some { frames, expect := .afterValue (.object ((name, value) :: entries).reverse) }
    else none
  | .afterValue _, [] => none

def finish (b : Builder) : Option Json :=
  match b.expect, b.frames with
  | .afterValue value, [] => some value
  | _, _ => none

end Builder

/-- The value of a token sequence. -/
def ofTokens? (tokens : List Token) : Option Json := do
  let b ← tokens.foldlM Builder.step {}
  b.finish

def parse? (bytes : List UInt8) : Option Json := do
  let tokens ← tokens? bytes
  ofTokens? tokens

end BinaryAtlas.Json
