-- Loading a program: from an export, and perhaps a call trace, to the whole
-- of its types, namespaces, symbols, functions and globals. A fault ends the
-- load, and nothing of the program is left.
import BinaryAtlas.Export.Json
import BinaryAtlas.Program.Basic
import BinaryAtlas.Program.Comments
import BinaryAtlas.Program.Declarations
import BinaryAtlas.Program.Places

namespace BinaryAtlas

/-! ## Namespaces -/

/-- The order of globals in a namespace: by name, then by address. -/
def Global.le (a b : Global) : Bool :=
  ((compare a.name? b.name?).then (compare a.address b.address)).isLE

/-- The order of places of globals. -/
def Global.placeLe (globals : List Global) (a b : Nat) : Bool :=
  match globals[a]?, globals[b]? with
  | some a, some b => a.le b
  | _, _ => a ≤ b

/-- The tree with one more global in the namespace of its key. -/
def NamespaceTree.addGlobal (tree : NamespaceTree) (entry : TypeKey × Nat) : NamespaceTree :=
  let (id, tree) := tree.getOrAdd entry.1.scope
  tree.addMember id entry.2

/-- The namespaces of the globals that have keys. -/
def NamespaceTree.ofGlobals (globals : List Global) (byKey : Std.ExtTreeMap TypeKey Nat) :
    NamespaceTree :=
  let entries := byKey.toList.mergeSort fun a b => a.2 ≤ b.2
  (entries.foldl addGlobal empty).sort (Global.placeLe globals)

/-! ## Loading -/

/-- What a load goes by: the settings, the functions that count, and the order in
which the keys of types are visited. -/
structure Loader where
  config : LoadConfig := {}
  filter : Option (String → Bool) := none
  order : VisitOrder := .ascending

namespace Loader

/-- The functions with the calls of a trace, and the counts of the calls. -/
def connect (loader : Loader) (routines : List Routine) (trace : Option (List UInt8)) :
    List Routine × Option CallStats :=
  match trace with
  | none => (routines, none)
  | some bytes =>
    let graph := CallGraph.populate routines (Routine.indexByKey routines)
      (CallRecord.readTrace bytes) loader.config.callTargets
    (graph.routines, some graph.stats)

/-- The program of an export and a trace. -/
def load (loader : Loader) (doc : Export) (trace : Option (List UInt8)) : Except Fault Program := do
  let declared ← Declaration.addAll (.withBuiltins loader.config.pointerSize) doc
  let symbols ← SymbolTable.ofExport loader.config doc
  let read ← GlobalReading.ofExport declared symbols doc
  let attached := read.types.attachDirectives (loader.order.keys read.types)
  let (_, types) := attached.resolveKeys (loader.order.keys attached)
  let (globals, resolved) := (read.sorted.mapM Global.resolve).run { store := types }
  let globalsByKey := Global.indexByKey globals
  let entered ← RoutineReading.ofExport read.symbols doc
  let placed := Routine.place loader.filter entered.sorted
  let (routines, callStats) := loader.connect placed trace
  .ok {
    types := resolved.store
    namespaces := .ofGlobals globals globalsByKey
    symbols := entered.symbols.values
    routines
    routinesByKey := Routine.indexByKey placed
    globals
    globalsByKey
    callStats }

/-- The program of two files, each given by its contents. The export is read
before the trace is looked for. -/
def loadFiles (loader : Loader) (doc : Option (List UInt8)) (trace : Option (Option (List UInt8))) :
    Except Fault Program := do
  match doc with
  | none => .error .fileNotFound
  | some bytes =>
    let doc ← Export.parse bytes
    match trace with
    | none => loader.load doc none
    | some none => .error .fileNotFound
    | some (some bytes) => loader.load doc (some bytes)

end Loader

end BinaryAtlas
