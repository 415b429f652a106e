-- Symbols and globals: what stands at single addresses of the program.
import BinaryAtlas.Text.Numeral
import BinaryAtlas.TypeGraph.Resolve

namespace BinaryAtlas

/-! ## Symbols -/

/-- What a symbol's address belongs to, by the key of the function or global. -/
inductive SymbolContext
  | function (key : TypeKey)
  | global (key : TypeKey)
deriving DecidableEq

/-- A named address. -/
structure Symbol where
  address : UInt32
  key : TypeKey
  context : Option SymbolContext := none
deriving DecidableEq

namespace Symbol

/-- The symbol of a name in a scope. -/
def of (address : UInt32) (scope name : String) : Symbol := { address, key := .of scope name }

def name (symbol : Symbol) : String := symbol.key.name

def scope (symbol : Symbol) : String := symbol.key.scope

def label (symbol : Symbol) : String :=
  .ofList (Text.hexAddress symbol.address) ++ " " ++ symbol.key.path

end Symbol

/-! ## Globals -/

/-- A data item. It has the key of the symbol at its address, if there is
one. -/
structure Global where
  address : UInt32
  size : UInt32
  type : Slot
  key : Option TypeKey := none
deriving DecidableEq

namespace Global

/-- The name of the global, if it has a key. -/
def name? (global : Global) : Option String := global.key.map TypeKey.name

/-- The global with its type resolved. -/
def resolve (global : Global) : StateM Resolving Global := do
  return { global with type := ← Resolving.ref global.type }

end Global

end BinaryAtlas
