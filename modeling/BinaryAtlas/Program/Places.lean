-- What stands at the addresses of a program: symbols, globals and functions.
-- Globals and functions also say what the symbols at their addresses are.
import BinaryAtlas.Calls.Graph
import BinaryAtlas.Export.Record
import BinaryAtlas.Symbol

namespace BinaryAtlas

/-- The symbols by their addresses. -/
abbrev SymbolTable := Std.ExtTreeMap UInt32 Symbol

/-! ## Symbols -/

namespace SymbolTable

def caseLabel : List Char := ['c', 'a', 's', 'e']

/-- The symbol is a switch label that the settings leave out. -/
def isLeftOut (config : LoadConfig) (name : String) : Bool :=
  config.skipCaseSymbols && caseLabel.isPrefixOf name.toList

/-- The table with one more symbol; a symbol at that address gives way. -/
def addRecord (config : LoadConfig) (symbols : SymbolTable) (record : Record) :
    Except Fault SymbolTable := do
  match ← record.address "ADDRESS" with
  | none => .ok symbols
  | some address =>
    let name := record.attributeOrEmpty "NAME"
    if isLeftOut config name then .ok symbols
    else .ok (symbols.insert address (.of address (record.attributeOrEmpty "NAMESPACE") name))

/-- The symbols of an export. -/
def ofExport (config : LoadConfig) (doc : Export) : Except Fault SymbolTable :=
  (doc.recordsOf .symbol).foldlM (addRecord config) ∅

end SymbolTable

/-! ## Globals -/

/-- Globals as they are read: the types and symbols so far, and the globals,
last first. -/
structure GlobalReading where
  types : TypeStore
  symbols : SymbolTable
  globals : List Global := []

namespace GlobalReading

/-- One more global. The symbol at its address gives it a key, and belongs to
it then. -/
def addRecord (r : GlobalReading) (record : Record) : Except Fault GlobalReading := do
  match ← record.address "ADDRESS" with
  | none => .ok r
  | some address =>
    let (type, types) := r.types.get record.dataTypeKey
    let size ← record.number "SIZE"
    match r.symbols[address]? with
    | none => .ok { r with types, globals := { address, size, type } :: r.globals }
    | some symbol =>
      let symbols := r.symbols.insert address { symbol with context := some (.global symbol.key) }
      let global : Global := { address, size, type, key := some symbol.key }
      .ok { types, symbols, globals := global :: r.globals }

/-- The globals in the order of their addresses; globals at one address keep
their order. -/
def sorted (r : GlobalReading) : List Global :=
  r.globals.reverse.mergeSort fun a b => a.address ≤ b.address

/-- The globals of an export. -/
def ofExport (types : TypeStore) (symbols : SymbolTable) (doc : Export) :
    Except Fault GlobalReading :=
  (doc.recordsOf .definedData).foldlM addRecord { types, symbols }

end GlobalReading

namespace Global

/-- One more global with its place. The last global of a key counts. -/
def noteKey (byKey : Std.ExtTreeMap TypeKey Nat) (entry : Global × Nat) :
    Std.ExtTreeMap TypeKey Nat :=
  match entry.1.key with
  | some key => byKey.insert key entry.2
  | none => byKey

/-- The places of the globals by their keys. -/
def indexByKey (globals : List Global) : Std.ExtTreeMap TypeKey Nat :=
  globals.zipIdx.foldl noteKey ∅

end Global

/-! ## Functions -/

/-- Functions as they are read: the symbols so far, the keys that have a
function, and the functions, last first. -/
structure RoutineReading where
  symbols : SymbolTable
  seen : Std.ExtTreeSet TypeKey := ∅
  routines : List Routine := []

namespace RoutineReading

/-- The region of a range with two real ends. -/
def readRegion (range : Record) : Except Fault (Option Region) := do
  let first ← range.address "START"
  let last ← range.address "END"
  match first, last with
  | some first, some last => .ok (some { first, last })
  | _, _ => .ok none

/-- The symbol at the entry of a function, which then belongs to it. It is
made if there is none. -/
def entrySymbol (symbols : SymbolTable) (address : UInt32) (key : TypeKey) : Symbol :=
  let symbol := (symbols[address]?).getD (.of address key.scope key.name)
  { symbol with context := some (.function key) }

/-- One more function. A second function of a key is left out, after its
ranges have been read. -/
def addRecord (r : RoutineReading) (record : Record) : Except Fault RoutineReading := do
  match ← record.address "ENTRY_POINT" with
  | none => .ok r
  | some address =>
    let key := record.key
    let ranges ← (record.childrenOf .addressRange).mapM readRegion
    if r.seen.contains key then .ok r
    else
      .ok {
        symbols := r.symbols.insert address (entrySymbol r.symbols address key)
        seen := r.seen.insert key
        routines := { key, address, regions := ranges.filterMap id } :: r.routines }

/-- The functions of an export. -/
def ofExport (symbols : SymbolTable) (doc : Export) : Except Fault RoutineReading :=
  (doc.recordsOf .function).foldlM addRecord { symbols }

/-- The functions in the order of their addresses; functions at one address
keep their order. -/
def sorted (r : RoutineReading) : List Routine :=
  r.routines.reverse.mergeSort fun a b => a.address ≤ b.address

end RoutineReading

namespace Routine

/-- The functions with their places, ignored where the filter rejects their
names. -/
def place (filter : Option (String → Bool)) (routines : List Routine) : List Routine :=
  routines.zipIdx.map fun (routine, index) =>
    { routine with
      index
      ignored := match filter with
        | some keeps => !keeps routine.name
        | none => false }

/-- The places of the functions by their keys; the last function of a key
counts. -/
def indexByKey (routines : List Routine) : RoutineIndex :=
  routines.zipIdx.foldl (fun byKey (routine, index) => byKey.insert routine.key index) ∅

end Routine

end BinaryAtlas
