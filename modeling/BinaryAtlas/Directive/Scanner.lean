-- Directives in comments. A directive is an at sign, a name, and arguments in
-- parentheses; an argument is a path or a directive. One that is not well
-- formed is dropped with everything around it that is still open.
import BinaryAtlas.Directive.Basic
import BinaryAtlas.Text.Blank
import BinaryAtlas.TypeKey

namespace BinaryAtlas

/-! ## Names -/

/-- What the name of a directive asks for. -/
inductive DirectiveName
  | pointsTo
  | readAs
  | lengthFrom
  | child
deriving DecidableEq

namespace DirectiveName

def letters : DirectiveName → List Char
  | pointsTo => ['p', 't', 'r']
  | readAs => ['a', 's']
  | lengthFrom => ['l', 'e', 'n']
  | child => ['c', 'h', 'i', 'l', 'd']

/-- The name that letters stand for. -/
def ofLetters? (cs : List Char) : Option DirectiveName :=
  [pointsTo, readAs, lengthFrom, child].find? fun name => name.letters == cs

end DirectiveName

/-- An ASCII letter or digit, or an underscore. -/
def isNameChar (c : Char) : Bool := c.isAlphanum || c == '_'

/-- A character that ends a path. -/
def isPathEnd (c : Char) : Bool := c == ',' || c == ')' || c == '(' || c == '@'

namespace Directive

variable {Store Ref : Type}

/-! ## Arguments -/

inductive Argument (Ref : Type) where
  | path (text : List Char)
  | directive (directive : Directive Ref)

/-- The reference to the type at a path, which a store gives out. The empty
path leads to no type. -/
def reference? (intern : TypeKey → Store → Ref × Store) (path : List Char) (store : Store) :
    Option Ref × Store :=
  match TypeKey.parse? (.ofList path) with
  | none => (none, store)
  | some key =>
    let (ref, store) := intern key.trimmed store
    (some ref, store)

/-- The directive of a name and its arguments, if they fit. -/
def build (intern : TypeKey → Store → Ref × Store) (name : List Char)
    (arguments : List (Argument Ref)) (store : Store) : Option (Directive Ref) × Store :=
  match DirectiveName.ofLetters? name, arguments with
  | some .pointsTo, [.path path] =>
    let (ref, store) := reference? intern path store
    (ref.map (Directive.pointsTo (.ofList path)), store)
  | some .readAs, [.path path] =>
    let (ref, store) := reference? intern path store
    (ref.map (Directive.readAs (.ofList path)), store)
  | some .lengthFrom, [.path member] =>
    (if member.isEmpty then none else some (.lengthFrom (.ofList member)), store)
  | some .child, [.path path, .directive directive] =>
    (if path.isEmpty then none else some (.child (.ofList path) directive), store)
  | _, _ => (none, store)

/-! ## The scanner -/

/-- A directive whose parentheses are open: its name, and its arguments so
far, last first. -/
structure Opened (Ref : Type) where
  name : List Char
  arguments : List (Argument Ref) := []

/-- Where the scanner stands. The letters of a name or a path are kept last
first. -/
inductive ScanPlace
  | outside
  | inName (letters : List Char)
  | afterName (name : List Char)
  | beforeArgument
  | inPath (letters : List Char)
  | afterArgument

/-- The scanner: its place, the directives that are open, innermost first,
the directives found, last first, and the store of references. -/
structure Scan (Store Ref : Type) where
  place : ScanPlace := .outside
  opened : List (Opened Ref) := []
  found : List (Directive Ref) := []
  store : Store

namespace Scan

/-- A character outside of all directives. -/
def restart (s : Scan Store Ref) (c : Char) : Scan Store Ref :=
  { s with place := if c = '@' then .inName [] else .outside, opened := [] }

/-- One more argument of the innermost open directive. -/
def addArgument (s : Scan Store Ref) (argument : Argument Ref) : Scan Store Ref :=
  match s.opened with
  | [] => s
  | inner :: outer =>
    { s with opened := { inner with arguments := argument :: inner.arguments } :: outer }

/-- The end of the innermost open directive. -/
def close (intern : TypeKey → Store → Ref × Store) (s : Scan Store Ref) : Scan Store Ref :=
  match s.opened with
  | [] => { s with place := .outside }
  | inner :: outer =>
    match build intern inner.name inner.arguments.reverse s.store with
    | (none, store) => { s with place := .outside, opened := [], store }
    | (some directive, store) =>
      if outer.isEmpty then
        { place := .outside, found := directive :: s.found, store }
      else
        addArgument { s with place := .afterArgument, opened := outer, store }
          (.directive directive)

/-- A character after the name of a directive. -/
def takeAfterName (s : Scan Store Ref) (name : List Char) (c : Char) : Scan Store Ref :=
  if Text.isBlank c then { s with place := .afterName name }
  else if c = '(' then { s with place := .beforeArgument, opened := { name } :: s.opened }
  else s.restart c

/-- A comma or a closing parenthesis after an argument. -/
def takeAfterArgument (intern : TypeKey → Store → Ref × Store) (s : Scan Store Ref) (c : Char) :
    Scan Store Ref :=
  if c = ',' then { s with place := .beforeArgument }
  else if c = ')' then s.close intern
  else s.restart c

def step (intern : TypeKey → Store → Ref × Store) (s : Scan Store Ref) (c : Char) :
    Scan Store Ref :=
  match s.place with
  | .outside => s.restart c
  | .inName letters =>
    if isNameChar c then { s with place := .inName (c :: letters) }
    else if letters.isEmpty then s.restart c
    else s.takeAfterName letters.reverse c
  | .afterName name => s.takeAfterName name c
  | .beforeArgument =>
    if Text.isBlank c then s
    else if c = '@' then { s with place := .inName [] }
    else if isPathEnd c then (s.addArgument (.path [])).takeAfterArgument intern c
    else { s with place := .inPath [c] }
  | .inPath letters =>
    if isPathEnd c then
      (s.addArgument (.path (Text.trim letters.reverse))).takeAfterArgument intern c
    else { s with place := .inPath (c :: letters) }
  | .afterArgument =>
    if Text.isBlank c then s else s.takeAfterArgument intern c

end Scan

/-- The directives of a comment, in order, and the store after all references
that they, or dropped directives, asked for. -/
def parse (intern : TypeKey → Store → Ref × Store) (comment : List Char) (store : Store) :
    List (Directive Ref) × Store :=
  let s := comment.foldl (Scan.step intern) { store }
  (s.found.reverse, s.store)

end Directive

end BinaryAtlas
