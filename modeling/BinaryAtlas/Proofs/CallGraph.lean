-- The laws of the call graph. A plain build of the graph looks for the calls
-- of each region in the whole trace, and judges each call by the functions as
-- they are at that moment. The graph of the moving cursor is the same.
import BinaryAtlas.Proofs.CallCursor

namespace BinaryAtlas

/-! ## The plain graph -/

namespace CallGraph

/-- The graph with one call of a function, judged by the graph so far. -/
def noteCall (byKey : RoutineIndex) (targets : CallTargets) (caller : Nat) (graph : CallGraph)
    (call : CallRecord) : CallGraph :=
  graph.note caller (call.verdict graph.routines byKey targets)

/-- The graph with all calls inside one region of a function, in the order of
their addresses. -/
def noteRegion (byKey : RoutineIndex) (calls : List CallRecord) (targets : CallTargets)
    (caller : Nat) (graph : CallGraph) (region : Region) : CallGraph :=
  ((CallRecord.sorted calls).filter fun call =>
    region.first ≤ call.address ∧ call.address ≤ region.last).foldl
      (noteCall byKey targets caller) graph

/-- The graph with all calls of one function, region by region. -/
def noteRoutine (byKey : RoutineIndex) (calls : List CallRecord) (targets : CallTargets)
    (graph : CallGraph) (entry : Routine × Nat) : CallGraph :=
  entry.1.regions.foldl (noteRegion byKey calls targets entry.2) graph

/-- The graph of a trace, function by function. -/
def plain (routines : List Routine) (byKey : RoutineIndex) (calls : List CallRecord)
    (targets : CallTargets) : CallGraph :=
  routines.zipIdx.foldl (noteRoutine byKey calls targets)
    { routines, stats := { calls := calls.length } }

end CallGraph

/-! ## Verdicts -/

/-- Which functions are ignored, place by place. -/
def Routine.ignoredOf (routines : List Routine) : List Bool := routines.map Routine.ignored

theorem CallRecord.verdict_congr {a b : List Routine}
    (h : Routine.ignoredOf a = Routine.ignoredOf b) (call : CallRecord) (byKey : RoutineIndex)
    (targets : CallTargets) :
    call.verdict a byKey targets = call.verdict b byKey targets := by
  have hplace (place : Nat) : a[place]?.map Routine.ignored = b[place]?.map Routine.ignored := by
    have := congrArg (·[place]?) h
    simpa [Routine.ignoredOf] using this
  unfold verdict
  split
  · rfl
  · split
    · rfl
    · rename_i callee _
      have := hplace callee
      cases ha : a[callee]? <;> cases hb : b[callee]? <;> simp_all

namespace CallGraph

/-- A change of one item that keeps the marks. -/
theorem map_modify_of_keeps {Item Mark : Type} (mark : Item → Mark) (change : Item → Item)
    (h : ∀ item, mark (change item) = mark item) (items : List Item) (place : Nat) :
    (items.modify place change).map mark = items.map mark := by
  apply List.ext_getElem?
  intro i
  simp only [List.getElem?_map, List.getElem?_modify]
  cases items[i]? with
  | none => rfl
  | some item =>
    simp only [Option.map_eq_map, Option.map_some]
    split <;> simp [h]

/-- An edge changes who calls whom, and no mark that does not look at that. -/
theorem map_note_of_keeps {Mark : Type} {mark : Routine → Mark}
    (hcallees : ∀ routine places, mark { routine with callees := places } = mark routine)
    (hcallers : ∀ routine places, mark { routine with callers := places } = mark routine)
    (graph : CallGraph) (caller : Nat) (verdict : CallVerdict) :
    (graph.note caller verdict).routines.map mark = graph.routines.map mark := by
  cases verdict with
  | edge callee =>
    rw [note, addEdge, map_modify_of_keeps mark _ fun routine => hcallers routine _,
      map_modify_of_keeps mark _ fun routine => hcallees routine _]
  | skipped => rfl
  | ignored => rfl
  | unresolved => rfl

theorem ignoredOf_note (graph : CallGraph) (caller : Nat) (verdict : CallVerdict) :
    Routine.ignoredOf (graph.note caller verdict).routines = Routine.ignoredOf graph.routines :=
  map_note_of_keeps (fun _ _ => rfl) (fun _ _ => rfl) graph caller verdict

/-- Judging by the functions of the start comes to the same as judging by the
functions of the moment. -/
theorem foldl_note_eq_foldl_noteCall {routines : List Routine} {byKey : RoutineIndex}
    {targets : CallTargets} (calls : List (Nat × CallRecord)) {graph : CallGraph}
    (h : Routine.ignoredOf graph.routines = Routine.ignoredOf routines) :
    calls.foldl (fun graph (caller, call) =>
        graph.note caller (call.verdict routines byKey targets)) graph =
      calls.foldl (fun graph (caller, call) => graph.noteCall byKey targets caller call) graph := by
  induction calls generalizing graph with
  | nil => rfl
  | cons entry calls ih =>
    obtain ⟨caller, call⟩ := entry
    have hverdict := CallRecord.verdict_congr h call byKey targets
    simp only [List.foldl_cons, noteCall, hverdict]
    apply ih
    rw [ignoredOf_note, h]

/-! ## The two graphs -/

theorem foldl_regionsOf {Graph : Type} (f : Graph → Nat × Region → Graph)
    (routines : List Routine) (graph : Graph) :
    (Routine.regionsOf routines).foldl f graph =
      routines.zipIdx.foldl (fun graph (routine, place) =>
        routine.regions.foldl (fun graph region => f graph (place, region)) graph) graph := by
  unfold Routine.regionsOf
  rw [List.foldl_flatMap]
  simp only [List.foldl_map]

theorem plain_eq (routines : List Routine) (byKey : RoutineIndex) (calls : List CallRecord)
    (targets : CallTargets) :
    plain routines byKey calls targets =
      ((Routine.regionsOf routines).flatMap fun (caller, region) =>
        ((CallRecord.sorted calls).filter (·.isInside region)).map (caller, ·)).foldl
          (fun graph (caller, call) => graph.noteCall byKey targets caller call)
          { routines, stats := { calls := calls.length } } := by
  rw [List.foldl_flatMap, foldl_regionsOf]
  simp only [List.foldl_map]
  unfold plain noteRoutine noteRegion
  simp only [CallRecord.isInside, Region.contains, Bool.decide_and]

/-- One moving cursor builds the plain graph: with no address twice in the
trace, all edges and all counts are those of a search of the whole trace for
each region of each function. And the cursor never goes back from the first
call, and never looks past the last one. -/
theorem one_cursor_builds_the_plain_graph (routines : List Routine) (byKey : RoutineIndex)
    (calls : List CallRecord) (targets : CallTargets)
    (h : (calls.map CallRecord.address).Nodup) :
    populate routines byKey calls targets = plain routines byKey calls targets ∧
      (calls ≠ [] →
        CallCursor.visitPlaces? (CallRecord.sorted calls) 0 (Routine.regionsOf routines) =
          some (CallCursor.visitAll { behind := [], ahead := CallRecord.sorted calls }
            (Routine.regionsOf routines))) := by
  have hcalls : CallCursor.calls { behind := [], ahead := CallRecord.sorted calls } =
      CallRecord.sorted calls := rfl
  constructor
  · have hvisit := CallCursor.visitAll_eq { behind := [], ahead := CallRecord.sorted calls }
      (CallRecord.ascending_sorted h) (Routine.regionsOf routines)
    rw [plain_eq]
    simp only [populate, hvisit, hcalls]
    exact foldl_note_eq_foldl_noteCall _ rfl
  · intro hne
    have hsorted : CallRecord.sorted calls ≠ [] := by
      intro he
      have hlen := congrArg List.length he
      simp only [CallRecord.sorted, List.length_mergeSort, List.length_nil] at hlen
      exact hne (List.length_eq_zero_iff.mp hlen)
    exact CallCursor.visitPlaces?_eq { behind := [], ahead := CallRecord.sorted calls } hsorted _

/-- A function in two parts, with two functions between them. -/
def splitRoutines : List Routine :=
  [{ key := .root "A", address := 0x100, regions := [⟨0x100, 0x10F⟩, ⟨0x400, 0x40F⟩] },
    { key := .root "B", address := 0x200, regions := [⟨0x200, 0x20F⟩], index := 1 },
    { key := .root "C", address := 0x300, regions := [⟨0x300, 0x30F⟩], index := 2 }]

/-- The places of the functions. -/
def splitIndex : RoutineIndex :=
  .ofList [(TypeKey.root "A", 0), (TypeKey.root "B", 1), (TypeKey.root "C", 2)]

/-- A call in each part, and one between them. -/
def splitCalls : List CallRecord := [⟨0x404, "C"⟩, ⟨0x204, "C"⟩, ⟨0x104, "B"⟩]

/-- The second part of the function leaves the cursor at the end, and the
next function has its call behind it. -/
theorem one_cursor_goes_back_between_the_parts_of_a_function :
    (splitCalls.map CallRecord.address).Nodup ∧ splitCalls ≠ [] ∧
      populate splitRoutines splitIndex splitCalls {} =
        plain splitRoutines splitIndex splitCalls {} ∧
      CallCursor.visitPlaces? (CallRecord.sorted splitCalls) 0 (Routine.regionsOf splitRoutines) =
        some (CallCursor.visitAll { behind := [], ahead := CallRecord.sorted splitCalls }
          (Routine.regionsOf splitRoutines)) := by
  have h := one_cursor_builds_the_plain_graph splitRoutines splitIndex splitCalls {} (by decide)
  exact ⟨by decide, by decide, h.1, h.2 (by decide)⟩

end CallGraph

end BinaryAtlas
