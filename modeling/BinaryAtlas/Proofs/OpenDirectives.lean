-- Directives whose parentheses are open. One may stand among the arguments of
-- another, and each has arguments of its own before it. What the scanner keeps
-- of them is told by what is written, and so is what it has asked the store for.
import BinaryAtlas.Proofs.DirectiveScan

namespace BinaryAtlas

/-! ## Well-formed directives -/

/-- A written directive that is well formed. -/
structure ProperDirective where
  written : WrittenDirective
  wellFormed : written.WellFormed

namespace ProperDirective

def chars (d : ProperDirective) : List Char := '@' :: d.written.body

/-- The directive that is meant, with keys in the place of references. -/
def meaning (d : ProperDirective) : Directive TypeKey :=
  d.written.meaning?.get (WrittenDirective.isSome_meaning?_of_wellFormed d.wellFormed)

theorem meaning?_written (d : ProperDirective) : d.written.meaning? = some d.meaning :=
  (Option.some_get _).symm

end ProperDirective

/-! ## Arguments -/

/-- An argument that means something: a path, or a directive that is well
formed. -/
inductive ProperArgument
  | path (path : WrittenPath)
  | directive (directive : ProperDirective)

/-- An argument between two gaps. -/
structure ProperItem where
  before : Gap
  argument : ProperArgument
  after : Gap

def ProperArgument.written : ProperArgument → WrittenArgument
  | .path p => .path p
  | .directive d => .directive d.written

namespace ProperItem

def chars (item : ProperItem) : List Char :=
  item.before.chars ++ (item.argument.written.chars ++ item.after.chars)

/-- The key of the type that the item names, if it is a directive. -/
def key? (item : ProperItem) : Option TypeKey := item.argument.written.key?

/-- The directive, if the item is one. -/
def directive? (item : ProperItem) : Option ProperDirective :=
  match item.argument with
  | .path _ => none
  | .directive d => some d

theorem key?_eq (item : ProperItem) :
    item.key? = item.directive?.bind fun d => d.meaning.target? := by
  obtain ⟨before, path | d, after⟩ := item
  · rfl
  · simp [key?, directive?, ProperArgument.written, WrittenArgument.key?, d.meaning?_written]

/-- A path with no blanks around it. -/
def ofPath (path : WrittenPath) : ProperItem := ⟨Directive.tight, .path path, Directive.tight⟩

@[simp]
theorem chars_ofPath (path : WrittenPath) : (ofPath path).chars = path.chars := by
  simp [ofPath, chars, Directive.tight, ProperArgument.written, WrittenArgument.chars]

@[simp]
theorem key?_ofPath (path : WrittenPath) : (ofPath path).key? = none := rfl

end ProperItem

/-- The arguments up to the closing parenthesis. -/
def WrittenArguments.ofItems : List ProperItem → ProperItem → WrittenArguments
  | [], final => .last final.before final.argument.written final.after
  | item :: items, final =>
    .more item.before item.argument.written item.after (ofItems items final)

theorem WrittenArguments.chars_ofItems (items : List ProperItem) (last : ProperItem) :
    (ofItems items last).chars =
      items.flatMap (fun item => item.chars ++ [',']) ++ (last.chars ++ [')']) := by
  induction items with
  | nil => simp [ofItems, chars, ProperItem.chars]
  | cons item items ih => simp [ofItems, chars, ProperItem.chars, ih]

theorem WrittenArguments.toList_ofItems (items : List ProperItem) (last : ProperItem) :
    (ofItems items last).toList = (items ++ [last]).map (·.argument.written) := by
  induction items with
  | nil => rfl
  | cons item items ih => simp [ofItems, toList, ih]

/-! ## Open directives -/

/-- A directive with open parentheses: blanks before it, its name, and its
arguments so far, each with a comma behind it. -/
structure Opening where
  before : Gap
  name : WrittenName
  gap : Gap
  items : List ProperItem := []

namespace Opening

def chars (o : Opening) : List Char :=
  o.before.chars ++
    '@' :: (o.name.letters ++ (o.gap.chars ++ '(' :: o.items.flatMap fun i => i.chars ++ [',']))

/-- One more argument. -/
def push (o : Opening) (item : ProperItem) : Opening := { o with items := o.items ++ [item] }

/-- The directive with its last argument. -/
def close (o : Opening) (last : ProperItem) : WrittenDirective :=
  .mk o.name o.gap (.ofItems o.items last)

@[simp]
theorem name_push (o : Opening) (item : ProperItem) : (o.push item).name = o.name := rfl

theorem chars_push (o : Opening) (item : ProperItem) :
    (o.push item).chars = o.chars ++ (item.chars ++ [',']) := by
  simp [push, chars]

theorem chars_close (o : Opening) (last : ProperItem) :
    o.before.chars ++ '@' :: (o.close last).body = o.chars ++ (last.chars ++ [')']) := by
  simp [close, chars, WrittenDirective.body, WrittenArguments.chars_ofItems]

theorem arguments_close (o : Opening) (last : ProperItem) :
    (o.close last).arguments.toList = (o.push last).items.map (·.argument.written) :=
  WrittenArguments.toList_ofItems o.items last

/-- Open directives, the innermost first: each stands behind the arguments of the
next one. -/
def chainChars : List Opening → List Char
  | [] => []
  | inner :: outer => chainChars outer ++ inner.chars

/-- The items of open directives, in the order of the text. -/
def chainItems : List Opening → List ProperItem
  | [] => []
  | inner :: outer => chainItems outer ++ inner.items

theorem chainItems_push (inner : Opening) (outer : List Opening) (item : ProperItem) :
    chainItems (inner.push item :: outer) = chainItems (inner :: outer) ++ [item] := by
  simp [chainItems, push]

end Opening

namespace Directive

variable {Store Ref : Type} (intern : TypeKey → Store → Ref × Store)

/-! ## Requests -/

/-- The store after requests for keys, one after the other. -/
def ask (keys : List TypeKey) (store : Store) : Store :=
  keys.foldl (fun store key => (intern key store).2) store

@[simp]
theorem ask_nil (store : Store) : ask intern [] store = store := rfl

theorem ask_append (keys keys' : List TypeKey) (store : Store) :
    ask intern (keys ++ keys') store = ask intern keys' (ask intern keys store) :=
  List.foldl_append

theorem answer_snd_eq_ask (meaning : Directive TypeKey) (store : Store) :
    (meaning.answer intern store).2 = ask intern meaning.target?.toList store :=
  answer_snd meaning store

/-- The reference of a directive is the one that the store gives out for its
key. -/
theorem answer_fst (meaning : Directive TypeKey) (store : Store) :
    (meaning.answer intern store).1 = meaning.map fun key => (intern key store).1 := by
  induction meaning with
  | pointsTo path key => rfl
  | readAs path key => rfl
  | lengthFrom member => rfl
  | child path inner ih =>
    rw [map, ← ih]
    rfl

/-! ## What the scanner keeps -/

/-- One more item: the arguments so far, last first, and the store. -/
def readItem (read : List (Argument Ref) × Store) (item : ProperItem) :
    List (Argument Ref) × Store :=
  match item.argument with
  | .path path => (.path path.trimmed :: read.1, read.2)
  | .directive d =>
    (.directive (d.meaning.answer intern read.2).1 :: read.1, (d.meaning.answer intern read.2).2)

def readItems (items : List ProperItem) (store : Store) : List (Argument Ref) × Store :=
  items.foldl (readItem intern) ([], store)

theorem readItems_append (items : List ProperItem) (last : ProperItem) (store : Store) :
    readItems intern (items ++ [last]) store =
      readItem intern (readItems intern items store) last :=
  List.foldl_concat ..

/-- The open directives as the scanner has them, innermost first, and the store
after their arguments. -/
def readChain : List Opening → Store → List (Opened Ref) × Store
  | [], store => ([], store)
  | inner :: outer, store =>
    let rest := readChain outer store
    let read := readItems intern inner.items rest.2
    ({ name := inner.name.letters, arguments := read.1 } :: rest.1, read.2)

theorem readItem_snd (read : List (Argument Ref) × Store) (item : ProperItem) :
    (readItem intern read item).2 = ask intern item.key?.toList read.2 := by
  obtain ⟨before, path | d, after⟩ := item
  · rfl
  · rw [ProperItem.key?_eq]
    exact answer_snd_eq_ask intern d.meaning read.2

theorem readItems_snd (items : List ProperItem) (store : Store) :
    (readItems intern items store).2 = ask intern (items.filterMap ProperItem.key?) store := by
  induction items using List.reverseRecOn with
  | nil => rfl
  | append_singleton items last ih =>
    have hlast : [last].filterMap ProperItem.key? = last.key?.toList := by
      cases h : last.key? <;> simp [h]
    rw [readItems_append, readItem_snd, ih, List.filterMap_append, ask_append, hlast]

theorem readChain_snd (chain : List Opening) (store : Store) :
    (readChain intern chain store).2 =
      ask intern ((Opening.chainItems chain).filterMap ProperItem.key?) store := by
  induction chain with
  | nil => rfl
  | cons inner outer ih =>
    rw [Opening.chainItems, List.filterMap_append, ask_append, ← ih, readChain, readItems_snd]

/-! ## Closing -/

theorem Answers.concat {items : List WrittenArgument} {last : WrittenArgument}
    {arguments : List (Argument Ref)} {argument : Argument Ref} {store mid store' : Store}
    (h : Answers intern items store arguments mid)
    (hlast : Answer intern last mid argument store') :
    Answers intern (items ++ [last]) store (arguments ++ [argument]) store' := by
  induction h with
  | nil => exact .cons hlast (.nil _)
  | cons hone _ ih => exact .cons hone (ih hlast)

theorem answer_readItem (read : List (Argument Ref) × Store) (item : ProperItem) :
    ∃ argument, (readItem intern read item).1 = argument :: read.1 ∧
      Answer intern item.argument.written read.2 argument (readItem intern read item).2 := by
  obtain ⟨before, path | d, after⟩ := item
  · exact ⟨_, rfl, .path path read.2⟩
  · exact ⟨_, rfl, .directive d.meaning?_written read.2⟩

/-- The arguments that the scanner keeps are the store's answers. -/
theorem answers_readItems (items : List ProperItem) (store : Store) :
    Answers intern (items.map (·.argument.written)) store (readItems intern items store).1.reverse
      (readItems intern items store).2 := by
  induction items using List.reverseRecOn with
  | nil => exact .nil store
  | append_singleton items last ih =>
    obtain ⟨argument, hkept, hlast⟩ := answer_readItem intern (readItems intern items store) last
    rw [readItems_append, hkept, List.map_append, List.reverse_cons]
    exact ih.concat intern hlast

/-- A directive that is closed is built just when it means something. -/
theorem build_close (o : Opening) (last : ProperItem) (store : Store) :
    build intern o.name.letters (readItems intern (o.push last).items store).1.reverse
        (readItems intern (o.push last).items store).2 =
      match (o.close last).meaning? with
      | some meaning => (some (meaning.answer intern store).1, (meaning.answer intern store).2)
      | none => (none, (readItems intern (o.push last).items store).2) := by
  have hanswers := answers_readItems intern (o.push last).items store
  rw [← Opening.arguments_close] at hanswers
  exact build_answers hanswers

end Directive

end BinaryAtlas
