-- Directives as they are written: an at sign, a name, and arguments between
-- parentheses, cut by commas. Blanks may stand in every gap. What is written
-- can be spelled out, and it may mean a directive.
import BinaryAtlas.Directive.Scanner

namespace BinaryAtlas

/-! ## Names -/

theorem DirectiveName.ofLetters?_eq_some_iff {cs : List Char} {name : DirectiveName} :
    ofLetters? cs = some name ↔ cs = name.letters := by
  unfold ofLetters?
  constructor
  · intro h
    have hfound := List.find?_some h
    exact (eq_of_beq hfound).symm
  · rintro rfl
    cases name <;> rfl

/-! ## Parts -/

/-- Blanks, perhaps none. -/
structure Gap where
  chars : List Char
  blank : ∀ c ∈ chars, Text.isBlank c = true

/-- A name, of one letter or more. -/
structure WrittenName where
  letters : List Char
  nonempty : letters ≠ []
  plain : ∀ c ∈ letters, isNameChar c = true

/-- A path, perhaps empty, with nothing in it that ends a path. -/
structure WrittenPath where
  chars : List Char
  plain : ∀ c ∈ chars, isPathEnd c = false

mutual

inductive WrittenArgument
  | path (path : WrittenPath)
  | directive (directive : WrittenDirective)

inductive WrittenDirective
  | mk (name : WrittenName) (gap : Gap) (arguments : WrittenArguments)

/-- One argument or more, each between two gaps. -/
inductive WrittenArguments
  | last (before : Gap) (argument : WrittenArgument) (after : Gap)
  | more (before : Gap) (argument : WrittenArgument) (after : Gap) (others : WrittenArguments)

end

/-! ## Spelling -/

mutual

def WrittenArgument.chars : WrittenArgument → List Char
  | .path path => path.chars
  | .directive directive => '@' :: directive.body

/-- The directive after its at sign. -/
def WrittenDirective.body : WrittenDirective → List Char
  | .mk name gap arguments => name.letters ++ (gap.chars ++ '(' :: arguments.chars)

/-- The arguments up to the closing parenthesis. -/
def WrittenArguments.chars : WrittenArguments → List Char
  | .last before argument after => before.chars ++ (argument.chars ++ (after.chars ++ [')']))
  | .more before argument after others =>
    before.chars ++ (argument.chars ++ (after.chars ++ ',' :: others.chars))

end

namespace WrittenArguments

def toList : WrittenArguments → List WrittenArgument
  | .last _ argument _ => [argument]
  | .more _ argument _ others => argument :: others.toList

end WrittenArguments

/-! ## Meaning -/

namespace WrittenPath

/-- The path without blanks around it. -/
def trimmed (path : WrittenPath) : List Char := Text.trim path.chars

/-- The key of the type at the path. -/
def key? (path : WrittenPath) : Option TypeKey :=
  (TypeKey.parse? (.ofList path.trimmed)).map TypeKey.trimmed

theorem key?_eq_none_iff {path : WrittenPath} : path.key? = none ↔ path.trimmed = [] := by
  unfold key? TypeKey.parse?
  rw [Option.map_eq_none_iff, String.toList_ofList]
  cases path.trimmed with
  | nil => simp
  | cons c cs =>
    simp only [reduceCtorEq, iff_false]
    split <;> simp

end WrittenPath

namespace WrittenDirective

def name : WrittenDirective → WrittenName
  | .mk name _ _ => name

def arguments : WrittenDirective → WrittenArguments
  | .mk _ _ arguments => arguments

/-- The directive that is meant, with keys in the place of references. -/
def meaning? : WrittenDirective → Option (Directive TypeKey)
  | .mk name _ (.last _ (.path path) _) =>
    match DirectiveName.ofLetters? name.letters with
    | some .pointsTo => path.key?.map (.pointsTo (.ofList path.trimmed))
    | some .readAs => path.key?.map (.readAs (.ofList path.trimmed))
    | some .lengthFrom =>
      if path.trimmed = [] then none else some (.lengthFrom (.ofList path.trimmed))
    | _ => none
  | .mk name _ (.more _ (.path path) _ (.last _ (.directive inner) _)) =>
    match DirectiveName.ofLetters? name.letters with
    | some .child =>
      if path.trimmed = [] then none else inner.meaning?.map (.child (.ofList path.trimmed))
    | _ => none
  | _ => none

/-- A directive that means something: a pointer, a reading or a length with one
path, or a child with a path and a directive that is well formed itself. -/
inductive WellFormed : WrittenDirective → Prop
  | leaf {name : WrittenName} {kind : DirectiveName} {gap before after : Gap} {path : WrittenPath}
      (hname : name.letters = kind.letters) (hkind : kind ≠ .child) (hpath : path.trimmed ≠ []) :
      WellFormed (.mk name gap (.last before (.path path) after))
  | child {name : WrittenName} {gap before after before' after' : Gap} {path : WrittenPath}
      {inner : WrittenDirective} (hname : name.letters = DirectiveName.child.letters)
      (hpath : path.trimmed ≠ []) (hinner : WellFormed inner) :
      WellFormed
        (.mk name gap (.more before (.path path) after (.last before' (.directive inner) after')))

/-- The directive means nothing, but each directive among its arguments does. -/
structure Rejected (directive : WrittenDirective) : Prop where
  not_wellFormed : ¬ directive.WellFormed
  inner : ∀ inner, .directive inner ∈ directive.arguments.toList → inner.WellFormed

theorem isSome_meaning?_of_wellFormed {directive : WrittenDirective} (h : directive.WellFormed) :
    directive.meaning?.isSome = true := by
  induction h with
  | leaf hname hkind hpath =>
    have hkey := Option.isSome_iff_ne_none.mpr (mt WrittenPath.key?_eq_none_iff.mp hpath)
    rw [meaning?, DirectiveName.ofLetters?_eq_some_iff.mpr hname]
    rename_i kind _ _ _ _
    cases kind <;> simp_all
  | child hname hpath _ ih =>
    rw [meaning?, DirectiveName.ofLetters?_eq_some_iff.mpr hname]
    simpa [hpath] using ih

/-- Just the directives that are well formed mean something. -/
theorem wellFormed_iff {directive : WrittenDirective} :
    directive.WellFormed ↔ directive.meaning?.isSome = true := by
  refine ⟨isSome_meaning?_of_wellFormed, ?_⟩
  fun_induction meaning? directive with
  | case1 name gap before path after hname =>
    intro h
    rw [Option.isSome_map, Option.isSome_iff_ne_none, ne_eq, WrittenPath.key?_eq_none_iff] at h
    exact .leaf (DirectiveName.ofLetters?_eq_some_iff.mp hname) nofun h
  | case2 name gap before path after hname =>
    intro h
    rw [Option.isSome_map, Option.isSome_iff_ne_none, ne_eq, WrittenPath.key?_eq_none_iff] at h
    exact .leaf (DirectiveName.ofLetters?_eq_some_iff.mp hname) nofun h
  | case3 => nofun
  | case4 name gap before path after hname hpath =>
    exact fun _ => .leaf (DirectiveName.ofLetters?_eq_some_iff.mp hname) nofun hpath
  | case5 => nofun
  | case6 => nofun
  | case7 name gap before path after before' inner after' hname hpath ih =>
    intro h
    rw [Option.isSome_map] at h
    exact .child (DirectiveName.ofLetters?_eq_some_iff.mp hname) hpath (ih h)
  | case8 => nofun
  | case9 => nofun

end WrittenDirective

/-! ## Comments -/

/-- The directive with the reference that a store gives out for its key, and
the store after that. -/
def Directive.answer {Store Ref : Type} (intern : TypeKey → Store → Ref × Store)
    (meaning : Directive TypeKey) (store : Store) : Directive Ref × Store :=
  (meaning.mapM (m := StateM Store) intern).run store

/-- A part of a comment: a directive, or text without an at sign. -/
inductive CommentPart
  | text (chars : List Char) (plain : '@' ∉ chars)
  | directive (directive : WrittenDirective)

/-- The key of the type that an argument names, if it is a directive. -/
def WrittenArgument.key? : WrittenArgument → Option TypeKey
  | .path _ => none
  | .directive inner => inner.meaning?.bind Directive.target?

/-- The keys of the types that the directives among the arguments name. -/
def WrittenArguments.keys (arguments : WrittenArguments) : List TypeKey :=
  arguments.toList.filterMap WrittenArgument.key?

namespace CommentPart

variable {Store Ref : Type}

def chars : CommentPart → List Char
  | .text chars _ => chars
  | .directive written => '@' :: written.body

/-- The directive that the part gives, with the references that a store gives
out. One that is rejected gives none, but the store is asked for the types that
the directives among its arguments name. -/
def answer (intern : TypeKey → Store → Ref × Store) (part : CommentPart) (store : Store) :
    List (Directive Ref) × Store :=
  match part with
  | .text _ _ => ([], store)
  | .directive written =>
    match written.meaning? with
    | some meaning => ([(meaning.answer intern store).1], (meaning.answer intern store).2)
    | none =>
      ([], written.arguments.keys.foldl (fun store key => (intern key store).2) store)

/-- The directives of all parts, in order, and the store after them. -/
def answers (intern : TypeKey → Store → Ref × Store) :
    List CommentPart → Store → List (Directive Ref) × Store
  | [], store => ([], store)
  | part :: parts, store =>
    let (found, store) := part.answer intern store
    let (others, store) := answers intern parts store
    (found ++ others, store)

end CommentPart

end BinaryAtlas
