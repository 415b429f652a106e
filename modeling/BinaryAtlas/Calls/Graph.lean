-- The call graph. One cursor moves over the calls of a trace, forwards and
-- backwards, from region to region, and judges every call that it meets.
import BinaryAtlas.Calls.Trace
import BinaryAtlas.Config
import BinaryAtlas.Routine
import Std.Data.ExtTreeMap

namespace BinaryAtlas

/-! ## Counts -/

/-- What became of the calls of a trace. -/
structure CallStats where
  /-- Calls in the trace. -/
  calls : Nat := 0
  /-- Calls met inside a region. -/
  scanned : Nat := 0
  /-- Edges that were new. -/
  edges : Nat := 0
  /-- Calls whose target can name no function. -/
  skipped : Nat := 0
  /-- Calls whose target names no known function. -/
  unresolved : Nat := 0
  /-- Calls of ignored functions. -/
  ignored : Nat := 0
deriving DecidableEq

def CallStats.line (stats : CallStats) : String :=
  "CallGraph(calls=" ++ toString stats.calls ++ ", scanned=" ++ toString stats.scanned ++
    ", edges=" ++ toString stats.edges ++ ", skipped=" ++ toString stats.skipped ++
    ", unresolved=" ++ toString stats.unresolved ++ ", ignored=" ++ toString stats.ignored ++ ")"

/-! ## The cursor -/

/-- A place between two calls: the calls before it, nearest first, and the
calls after it. -/
structure CallCursor where
  behind : List CallRecord
  ahead : List CallRecord

namespace CallCursor

/-- Back until the next call lies at or before the address, or to the first
call. -/
def rewindFrom (first : UInt32) : List CallRecord → List CallRecord → CallCursor
  | [], ahead => { behind := [], ahead }
  | call :: behind, [] => rewindFrom first behind [call]
  | call :: behind, next :: ahead =>
    if first < next.address then rewindFrom first behind (call :: next :: ahead)
    else { behind := call :: behind, ahead := next :: ahead }

/-- Forwards to the first call after the region, with the calls inside it. -/
def sweepFrom (region : Region) : List CallRecord → List CallRecord → List CallRecord × CallCursor
  | behind, [] => ([], { behind, ahead := [] })
  | behind, call :: ahead =>
    if call.address < region.first then sweepFrom region (call :: behind) ahead
    else if region.last < call.address then ([], { behind, ahead := call :: ahead })
    else
      let (met, cursor) := sweepFrom region (call :: behind) ahead
      (call :: met, cursor)

/-- The calls that the cursor meets in a region, and where it stands then. -/
def visit (cursor : CallCursor) (region : Region) : List CallRecord × CallCursor :=
  let back := rewindFrom region.first cursor.behind cursor.ahead
  sweepFrom region back.behind back.ahead

/-- The calls met in regions, each with the place of the region's function. -/
def visitAll : CallCursor → List (Nat × Region) → List (Nat × CallRecord)
  | _, [] => []
  | cursor, (caller, region) :: regions =>
    let (met, cursor) := cursor.visit region
    met.map (caller, ·) ++ visitAll cursor regions

end CallCursor

/-! ## Judging calls -/

/-- What a call comes to. -/
inductive CallVerdict
  | skipped
  | ignored
  | unresolved
  | edge (callee : Nat)
deriving DecidableEq

/-- The places of the functions by their keys. -/
abbrev RoutineIndex := Std.ExtTreeMap TypeKey Nat

/-- The verdict on a call. The target names a function of the root scope. -/
def CallRecord.verdict (call : CallRecord) (routines : List Routine) (byKey : RoutineIndex)
    (targets : CallTargets) : CallVerdict :=
  if targets.isSkipped call.target then .skipped
  else
    match byKey[TypeKey.root call.target]? with
    | none => .unresolved
    | some callee =>
      match routines[callee]? with
      | none => .unresolved
      | some routine => if routine.ignored then .ignored else .edge callee

/-! ## Edges -/

/-- Functions with the edges between them, and the counts so far. -/
structure CallGraph where
  routines : List Routine
  stats : CallStats := {}

namespace CallGraph

def hasEdge (routines : List Routine) (caller callee : Nat) : Bool :=
  match routines[caller]? with
  | some routine => routine.callees.contains callee
  | none => false

/-- The functions with an edge between two of them. -/
def addEdge (routines : List Routine) (caller callee : Nat) : List Routine :=
  (routines.modify caller fun routine =>
    { routine with callees := routine.callees.insert callee }).modify callee fun routine =>
    { routine with callers := routine.callers.insert caller }

/-- One call of a function with its verdict. -/
def note (graph : CallGraph) (caller : Nat) (verdict : CallVerdict) : CallGraph :=
  let stats := { graph.stats with scanned := graph.stats.scanned + 1 }
  match verdict with
  | .skipped => { graph with stats := { stats with skipped := stats.skipped + 1 } }
  | .ignored => { graph with stats := { stats with ignored := stats.ignored + 1 } }
  | .unresolved => { graph with stats := { stats with unresolved := stats.unresolved + 1 } }
  | .edge callee =>
    { routines := addEdge graph.routines caller callee
      stats := if hasEdge graph.routines caller callee then stats
        else { stats with edges := stats.edges + 1 } }

end CallGraph

/-! ## The whole graph -/

/-- The regions of the functions, in order, with the places of the functions. -/
def Routine.regionsOf (routines : List Routine) : List (Nat × Region) :=
  routines.zipIdx.flatMap fun (routine, place) => routine.regions.map (place, ·)

/-- The calls in the order of their addresses; calls at one address keep
their order. -/
def CallRecord.sorted (calls : List CallRecord) : List CallRecord :=
  calls.mergeSort fun a b => a.address ≤ b.address

/-- The functions with the edges of a trace, and the counts. -/
def CallGraph.populate (routines : List Routine) (byKey : RoutineIndex) (calls : List CallRecord)
    (targets : CallTargets) : CallGraph :=
  let met := CallCursor.visitAll { behind := [], ahead := CallRecord.sorted calls }
    (Routine.regionsOf routines)
  met.foldl (fun graph (caller, call) =>
      graph.note caller (call.verdict routines byKey targets))
    { routines, stats := { calls := calls.length } }

end BinaryAtlas
