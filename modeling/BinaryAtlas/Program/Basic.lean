-- A loaded program: its types, its namespaces, what stands at its addresses,
-- and who calls whom.
import BinaryAtlas.Calls.Graph
import BinaryAtlas.Namespace
import BinaryAtlas.Nearest
import BinaryAtlas.Symbol
import BinaryAtlas.TypeGraph.Builtin
import BinaryAtlas.TypeGraph.Size

namespace BinaryAtlas

/-- A program. Symbols, functions and globals stand in the order of their
addresses. -/
structure Program where
  types : TypeStore
  namespaces : NamespaceTree
  symbols : List Symbol
  routines : List Routine
  routinesByKey : RoutineIndex
  globals : List Global
  globalsByKey : Std.ExtTreeMap TypeKey Nat
  callStats : Option CallStats

/-- What a symbol belongs to. -/
inductive SymbolOwner
  | function (routine : Routine)
  | global (global : Global)

namespace Program

/-! ## Types -/

def typeAt? (program : Program) (path : String) : Option Slot :=
  (TypeKey.parse? path).bind program.types.lookup

/-! ## Addresses -/

/-- The nearest symbol at or below an address. -/
def symbolNear? (program : Program) (address : UInt32) : Option Symbol :=
  (nearest? (program.symbols.map Symbol.address).toArray address).bind fun place =>
    program.symbols[place]?

/-- The function with the nearest entry at or below an address. The address
need not lie inside the function. -/
def routineNear? (program : Program) (address : UInt32) : Option Routine :=
  (nearest? (program.routines.map Routine.address).toArray address).bind fun place =>
    program.routines[place]?

/-! ## Keys -/

def routineOf? (program : Program) (key : TypeKey) : Option Routine :=
  program.routinesByKey[key]?.bind fun place => program.routines[place]?

def globalOf? (program : Program) (key : TypeKey) : Option Global :=
  program.globalsByKey[key]?.bind fun place => program.globals[place]?

/-- What a symbol belongs to. -/
def ownerOf? (program : Program) (symbol : Symbol) : Option SymbolOwner :=
  match symbol.context with
  | none => none
  | some (.function key) => (program.routineOf? key).map .function
  | some (.global key) => (program.globalOf? key).map .global

/-! ## Namespaces -/

/-- The globals that a namespace holds itself. -/
def globalsIn (program : Program) (id : Nat) : List Global :=
  match program.namespaces.node? id with
  | some node => node.members.filterMap fun place => program.globals[place]?
  | none => []

/-! ## Calls -/

def routinesAt (program : Program) (places : List Nat) : List Routine :=
  places.filterMap fun place => program.routines[place]?

def callersOf (program : Program) (routine : Routine) : List Routine :=
  program.routinesAt routine.callers.toList

def calleesOf (program : Program) (routine : Routine) : List Routine :=
  program.routinesAt routine.callees.toList

/-- The functions that nothing calls, without those that are ignored. -/
def roots (program : Program) : List Routine :=
  program.routines.filter fun routine => !routine.ignored && routine.callers.isEmpty

/-- The functions that call nothing, without those that are ignored. -/
def leaves (program : Program) : List Routine :=
  program.routines.filter fun routine => !routine.ignored && routine.callees.isEmpty

end Program

end BinaryAtlas
