-- The laws of edges between functions. An edge stands at both its ends: the
-- caller has the place of the callee, and the callee has the place of the
-- caller. Every call that is noted keeps the ends in step, and so do runs of
-- any number; only calls make edges, and nothing but the edges changes.
import BinaryAtlas.Proofs.CallGraph
import BinaryAtlas.Proofs.CallOrder
import Mathlib.Algebra.GroupWithZero.Nat

namespace BinaryAtlas

/-- The function without its edges. -/
def Routine.bare (routine : Routine) : Routine := { routine with callers := ∅, callees := ∅ }

namespace CallGraph

/-! ## Edges and their ends -/

/-- The caller has the edge. -/
def Calls (routines : List Routine) (caller callee : Nat) : Prop :=
  ∃ routine, routines[caller]? = some routine ∧ callee ∈ routine.callees

/-- The callee has the edge. -/
def CalledBy (routines : List Routine) (callee caller : Nat) : Prop :=
  ∃ routine, routines[callee]? = some routine ∧ caller ∈ routine.callers

/-- The number of edges, as the callers have them. -/
def edgeCount (routines : List Routine) : Nat :=
  (routines.map fun routine => routine.callees.size).sum

theorem mem_insert_if (places : Std.ExtTreeSet Nat) (p : Prop) [Decidable p] (a b : Nat) :
    b ∈ (if p then places.insert a else places) ↔ b ∈ places ∨ p ∧ b = a := by
  by_cases hp : p
  · simp only [hp, if_true, true_and, Std.ExtTreeSet.mem_insert, Std.LawfulEqCmp.compare_eq_iff_eq]
    rw [or_comm, eq_comm]
  · simp only [hp, if_false, false_and, or_false]

section

variable {routines : List Routine} {caller callee : Nat}

/-- A new edge at the end that `ends` shows, which gets `other` at `place`. -/
theorem exists_addEdge {ends : Routine → Std.ExtTreeSet Nat} {place other : Nat}
    (hends : ∀ i j routine, j ∈ ends (linked caller callee i routine) ↔
      j ∈ ends routine ∨ place = i ∧ j = other)
    (hplace : place < routines.length) (i j : Nat) :
    (∃ routine, (addEdge routines caller callee)[i]? = some routine ∧ j ∈ ends routine) ↔
      (∃ routine, routines[i]? = some routine ∧ j ∈ ends routine) ∨ i = place ∧ j = other := by
  simp only [getElem?_addEdge, Option.map_eq_some_iff]
  constructor
  · rintro ⟨_, ⟨routine, hroutine, rfl⟩, hj⟩
    rcases (hends i j routine).mp hj with hj | ⟨rfl, rfl⟩
    · exact .inl ⟨routine, hroutine, hj⟩
    · exact .inr ⟨rfl, rfl⟩
  · rintro (⟨routine, hroutine, hj⟩ | ⟨rfl, rfl⟩)
    · exact ⟨_, ⟨routine, hroutine, rfl⟩, (hends i j routine).mpr (.inl hj)⟩
    · exact ⟨_, ⟨_, List.getElem?_eq_getElem hplace, rfl⟩, (hends i j _).mpr (.inr ⟨rfl, rfl⟩)⟩

theorem calls_addEdge (h : caller < routines.length) (i j : Nat) :
    Calls (addEdge routines caller callee) i j ↔ Calls routines i j ∨ i = caller ∧ j = callee :=
  exists_addEdge (fun _ _ _ => mem_insert_if _ _ _ _) h i j

theorem calledBy_addEdge (h : callee < routines.length) (j i : Nat) :
    CalledBy (addEdge routines caller callee) j i ↔
      CalledBy routines j i ∨ j = callee ∧ i = caller :=
  exists_addEdge (fun _ _ _ => mem_insert_if _ _ _ _) h j i

end

/-- One item exchanged changes a sum by what it counts for. -/
theorem sum_modify {Item : Type} (weight : Item → Nat) (change : Item → Item) {items : List Item}
    {place : Nat} {item : Item} (h : items[place]? = some item) :
    ((items.modify place change).map weight).sum + weight item =
      (items.map weight).sum + weight (change item) := by
  induction items generalizing place with
  | nil => simp at h
  | cons first items ih =>
    cases place with
    | zero =>
      obtain rfl : first = item := by simpa using h
      simp
      omega
    | succ place =>
      have := ih (by simpa using h)
      simp
      omega

/-- A new edge counts once, and an edge that is there already counts no more. -/
theorem edgeCount_addEdge {routines : List Routine} {caller : Nat} (h : caller < routines.length)
    (callee : Nat) : edgeCount (addEdge routines caller callee) =
      edgeCount routines + if hasEdge routines caller callee then 0 else 1 := by
  have hsum := sum_modify (fun routine => routine.callees.size)
    (fun routine : Routine => { routine with callees := routine.callees.insert callee })
    (List.getElem?_eq_getElem h)
  have hsize := Std.ExtTreeSet.size_insert (t := routines[caller].callees) (k := callee)
  simp only [hsize] at hsum
  -- The end at the callee is another one.
  have hcallers := map_modify_of_keeps (fun routine => routine.callees.size)
    (fun routine : Routine => { routine with callers := routine.callers.insert caller })
    (fun _ => rfl)
  unfold addEdge edgeCount hasEdge
  rw [hcallers, List.getElem?_eq_getElem h]
  cases hold : routines[caller].callees.contains callee with
  | true =>
    simp only [hold, if_true] at hsum ⊢
    omega
  | false =>
    simp only [hold, Bool.false_eq_true, if_false] at hsum ⊢
    omega

/-! ## One call -/

/-- What the calls noted so far come to: every edge stands at both its ends and
is an edge of `allowed`, and nothing but the edges has changed. The counts
tell how many edges are new, and no call is counted as two things. -/
structure Noted (before : List Routine) (allowed : Nat → Nat → Prop) (total : Nat)
    (graph : CallGraph) : Prop where
  bare : graph.routines.map Routine.bare = before.map Routine.bare
  mirrored : ∀ i j, Calls graph.routines i j ↔ CalledBy graph.routines j i
  allowed : ∀ i j, Calls graph.routines i j → allowed i j
  calls : graph.stats.calls = total
  grown : edgeCount graph.routines = edgeCount before + graph.stats.edges
  split : graph.stats.skipped + graph.stats.unresolved + graph.stats.ignored + graph.stats.edges ≤
    graph.stats.scanned

/-- A call that is noted keeps it so. -/
theorem Noted.note {before : List Routine} {allowed : Nat → Nat → Prop} {total : Nat}
    {graph : CallGraph} (h : Noted before allowed total graph) {caller : Nat}
    {verdict : CallVerdict} (hedge : ∀ callee, verdict = .edge callee →
      caller < before.length ∧ callee < before.length ∧ allowed caller callee) :
    Noted before allowed total (graph.note caller verdict) := by
  cases verdict with
  | skipped | ignored | unresolved =>
    have hsplit := h.split
    refine { h with split := ?_ }
    simp only [CallGraph.note]
    omega
  | edge callee =>
    have hlength : graph.routines.length = before.length := by
      simpa using congrArg List.length h.bare
    obtain ⟨hcaller, hcallee, hnew⟩ := hedge callee rfl
    rw [← hlength] at hcaller hcallee
    have hcount := edgeCount_addEdge hcaller callee
    have hgrown := h.grown
    have hsplit := h.split
    refine ⟨?_, ?_, ?_, ?_, ?_, ?_⟩
    · exact (map_note_of_keeps (fun _ _ => rfl) (fun _ _ => rfl) graph _ _).trans h.bare
    · intro i j
      rw [CallGraph.note, calls_addEdge hcaller, calledBy_addEdge hcallee, h.mirrored,
        and_comm (a := i = caller)]
    · intro i j hcalls
      rcases (calls_addEdge hcaller i j).mp hcalls with hold | ⟨rfl, rfl⟩
      · exact h.allowed i j hold
      · exact hnew
    · rw [CallGraph.note, ← h.calls]
      split <;> rfl
    · cases hold : hasEdge graph.routines caller callee with
      | true =>
        simp only [CallGraph.note, hcount, hold, if_true]
        omega
      | false =>
        simp only [CallGraph.note, hcount, hold, Bool.false_eq_true, if_false]
        omega
    · rw [CallGraph.note]
      split
      · simp only
        omega
      · simp only
        omega

end CallGraph

/-! ## Calls that are met -/

namespace CallCursor

theorem mem_visit {cursor : CallCursor} {region : Region} {call : CallRecord}
    (hsorted : cursor.calls.Pairwise fun a b => a.address ≤ b.address)
    (h : call ∈ (cursor.visit region).1) : call ∈ cursor.calls ∧ call.isInside region = true := by
  rw [← List.mem_filter, ← passed_append_met region hsorted]
  exact List.mem_append_right _ h

/-- The cursor meets calls of the trace only, each inside a region of its function. -/
theorem mem_visitAll {cursor : CallCursor} {regions : List (Nat × Region)} {caller : Nat}
    {call : CallRecord} (hsorted : cursor.calls.Pairwise fun a b => a.address ≤ b.address)
    (h : (caller, call) ∈ cursor.visitAll regions) : call ∈ cursor.calls ∧
      ∃ region, (caller, region) ∈ regions ∧ call.isInside region = true := by
  induction regions generalizing cursor with
  | nil => cases h
  | cons entry regions ih =>
    obtain ⟨place, region⟩ := entry
    have hkeep := calls_visit cursor region
    have hinside := @mem_visit cursor region
    rcases hv : cursor.visit region with ⟨met, next⟩
    rw [hv] at hkeep hinside
    simp only [visitAll, hv, List.mem_append, List.mem_map, Prod.mk.injEq] at h
    rcases h with ⟨_, hmet, rfl, rfl⟩ | hrest
    · obtain ⟨hcall, hin⟩ := hinside hsorted hmet
      exact ⟨hcall, region, List.mem_cons_self, hin⟩
    · obtain ⟨hcall, other, hother, hin⟩ := ih (by rwa [hkeep]) hrest
      rw [hkeep] at hcall
      exact ⟨hcall, other, List.mem_cons_of_mem _ hother, hin⟩

end CallCursor

theorem CallRecord.verdict_eq_edge {call : CallRecord} {routines : List Routine}
    {byKey : RoutineIndex} {targets : CallTargets} {callee : Nat}
    (h : call.verdict routines byKey targets = .edge callee) :
    targets.isSkipped call.target = false ∧ byKey[TypeKey.root call.target]? = some callee ∧
      ∃ routine, routines[callee]? = some routine ∧ routine.ignored = false := by
  unfold verdict at h
  split at h
  · cases h
  · rename_i hskipped
    split at h
    · cases h
    · rename_i place hplace
      split at h
      · cases h
      · rename_i routine hroutine
        split at h
        · cases h
        · rename_i hignored
          obtain rfl := CallVerdict.edge.inj h
          exact ⟨by simpa using hskipped, hplace, routine, hroutine, by simpa using hignored⟩

namespace CallGraph

/-! ## One run -/

/-- The call lies inside the function. -/
def LiesIn (routines : List Routine) (caller : Nat) (call : CallRecord) : Prop :=
  ∃ routine, routines[caller]? = some routine ∧ routine.contains call.address = true

/-- Many calls that are noted keep it so. -/
theorem Noted.foldl {before : List Routine} {allowed : Nat → Nat → Prop} {total : Nat}
    {met : List (Nat × CallVerdict)} (hedges : ∀ entry ∈ met, ∀ callee, entry.2 = .edge callee →
      entry.1 < before.length ∧ callee < before.length ∧ allowed entry.1 callee)
    {graph : CallGraph} (h : Noted before allowed total graph) :
    Noted before allowed total
      (met.foldl (fun graph entry => graph.note entry.1 entry.2) graph) := by
  induction met generalizing graph with
  | nil => exact h
  | cons entry met ih =>
    apply ih (fun e he => hedges e (List.mem_cons_of_mem _ he))
    exact h.note (hedges entry List.mem_cons_self)

/-- A run keeps the ends in step, and adds edges of its calls only. -/
theorem populate_noted {before : List Routine} {allowed : Nat → Nat → Prop}
    (hmirrored : ∀ i j, Calls before i j ↔ CalledBy before j i)
    (hallowed : ∀ i j, Calls before i j → allowed i j) {byKey : RoutineIndex}
    {calls : List CallRecord} {targets : CallTargets}
    (hnew : ∀ call ∈ calls, ∀ caller callee, LiesIn before caller call →
      call.verdict before byKey targets = .edge callee → allowed caller callee) :
    Noted before allowed calls.length (populate before byKey calls targets) := by
  have hstart : Noted before allowed calls.length
      { routines := before, stats := { calls := calls.length } } :=
    ⟨rfl, hmirrored, hallowed, rfl, rfl, Nat.le_refl 0⟩
  have hsorted : (CallCursor.calls { behind := [], ahead := CallRecord.sorted calls }).Pairwise
      fun a b => a.address ≤ b.address := CallRecord.pairwise_sorted calls
  rw [populate_eq]
  apply Noted.foldl _ hstart
  intro _ hentry callee hverdict
  obtain ⟨⟨caller, call⟩, hmet, rfl⟩ := List.mem_map.mp hentry
  obtain ⟨hcall, region, hregion, hinside⟩ := CallCursor.mem_visitAll hsorted hmet
  obtain ⟨routine, hroutine, hmem⟩ := getElem?_of_mem_regionsOf hregion
  obtain ⟨-, -, other, hother, -⟩ := CallRecord.verdict_eq_edge hverdict
  refine ⟨(List.getElem?_eq_some_iff.mp hroutine).1, (List.getElem?_eq_some_iff.mp hother).1, ?_⟩
  apply hnew call ((List.mergeSort_perm _ _).mem_iff.mp hcall) caller callee _ hverdict
  exact ⟨routine, hroutine, List.any_eq_true.mpr ⟨region, hmem, hinside⟩⟩

/-! ## Runs -/

end CallGraph

/-- One build of the graph: a trace, and the targets that name no function. -/
structure CallRun where
  calls : List CallRecord
  targets : CallTargets

namespace CallGraph

/-- The functions after some runs, each of which goes on where the last one
stopped. -/
def afterRuns (routines : List Routine) (byKey : RoutineIndex) (runs : List CallRun) :
    List Routine :=
  runs.foldl (fun routines run => (populate routines byKey run.calls run.targets).routines) routines

/-- Some run has a call inside the caller that names the callee. -/
def Justified (routines : List Routine) (byKey : RoutineIndex) (runs : List CallRun)
    (caller callee : Nat) : Prop :=
  ∃ run ∈ runs, ∃ call ∈ run.calls, LiesIn routines caller call ∧
    run.targets.isSkipped call.target = false ∧ byKey[TypeKey.root call.target]? = some callee

/-- What holds of the functions after some runs, if they had no edges at the
start. -/
structure InStep (start : List Routine) (byKey : RoutineIndex) (runs : List CallRun)
    (routines : List Routine) : Prop where
  /-- Each edge stands at both its ends. -/
  mirrored : ∀ i j, Calls routines i j ↔ CalledBy routines j i
  /-- Both ends are functions of the list. -/
  inside : ∀ i j, Calls routines i j ∨ CalledBy routines j i →
    i < routines.length ∧ j < routines.length
  /-- Nobody calls an ignored function. -/
  ignored : ∀ j routine, routines[j]? = some routine → routine.ignored = true →
    routine.callers = ∅ ∧ ∀ i, ¬ Calls routines i j
  justified : ∀ i j, Calls routines i j → Justified start byKey runs i j
  /-- Apart from their edges, the functions are those of the start. -/
  bare : routines.map Routine.bare = start

theorem liesIn_map_bare {routines : List Routine} {caller : Nat} {call : CallRecord} :
    LiesIn (routines.map Routine.bare) caller call ↔ LiesIn routines caller call := by
  simp only [LiesIn, List.getElem?_map, Option.map_eq_some_iff]
  constructor
  · rintro ⟨_, ⟨routine, hroutine, rfl⟩, hin⟩
    exact ⟨routine, hroutine, hin⟩
  · rintro ⟨routine, hroutine, hin⟩
    exact ⟨_, ⟨routine, hroutine, rfl⟩, hin⟩

theorem Justified.mono {start : List Routine} {byKey : RoutineIndex} {runs runs' : List CallRun}
    {i j : Nat} (h : Justified start byKey runs i j) (hruns : runs ⊆ runs') :
    Justified start byKey runs' i j := by
  obtain ⟨run, hrun, hcall⟩ := h
  exact ⟨run, hruns hrun, hcall⟩

/-- The edges that runs may leave: a call makes them, and the callee is not ignored. -/
def MayCall (start : List Routine) (byKey : RoutineIndex) (runs : List CallRun) (i j : Nat) :
    Prop :=
  Justified start byKey runs i j ∧
    ∃ routine, start[j]? = some routine ∧ routine.ignored = false

section

variable {start before : List Routine} {byKey : RoutineIndex} {runs : List CallRun}

theorem InStep.mayCall (h : InStep start byKey runs before) {i j : Nat}
    (hcalls : Calls before i j) : MayCall start byKey runs i j := by
  have hj := (h.inside i j (.inl hcalls)).2
  have hroutine := List.getElem?_eq_getElem hj
  refine ⟨h.justified i j hcalls, before[j].bare, ?_, ?_⟩
  · rw [← h.bare, List.getElem?_map, hroutine, Option.map_some]
  · cases hignored : before[j].ignored with
    | false => exact hignored
    | true => exact absurd hcalls ((h.ignored j _ hroutine hignored).2 i)

/-- Functions whose edges are all allowed, and stand at both ends, are in step. -/
theorem inStep_of_mayCall {routines : List Routine}
    (hbare : routines.map Routine.bare = start)
    (hmirrored : ∀ i j, Calls routines i j ↔ CalledBy routines j i)
    (hmay : ∀ i j, Calls routines i j → MayCall start byKey runs i j) :
    InStep start byKey runs routines where
  mirrored := hmirrored
  inside := by
    intro i j hedge
    have hcalls : Calls routines i j := hedge.elim id (hmirrored i j).mpr
    obtain ⟨callee, hcallee, -⟩ := (hmirrored i j).mp hcalls
    obtain ⟨caller, hcaller, -⟩ := hcalls
    exact ⟨(List.getElem?_eq_some_iff.mp hcaller).1, (List.getElem?_eq_some_iff.mp hcallee).1⟩
  ignored := by
    intro j routine hroutine hignored
    have hnone : ∀ i, ¬ Calls routines i j := by
      intro i hcalls
      obtain ⟨-, other, hother, hopen⟩ := hmay i j hcalls
      rw [← hbare, List.getElem?_map, hroutine, Option.map_some, Option.some.injEq] at hother
      rw [← hother] at hopen
      exact absurd (hopen.symm.trans hignored) (by decide)
    refine ⟨?_, hnone⟩
    rw [Std.ExtTreeSet.eq_empty_iff_forall_not_mem]
    intro i hi
    exact hnone i ((hmirrored i j).mpr ⟨routine, hroutine, hi⟩)
  justified := fun i j hc => (hmay i j hc).1
  bare := hbare

/-- One more run. -/
theorem InStep.noted (h : InStep start byKey runs before) (run : CallRun) :
    Noted before (MayCall start byKey (runs ++ [run])) run.calls.length
      (populate before byKey run.calls run.targets) := by
  apply populate_noted h.mirrored
  · intro i j hcalls
    obtain ⟨hjustified, hopen⟩ := h.mayCall hcalls
    exact ⟨hjustified.mono (List.subset_append_left _ _), hopen⟩
  · intro call hcall caller callee hin hverdict
    obtain ⟨hskipped, hplace, routine, hroutine, hopen⟩ := CallRecord.verdict_eq_edge hverdict
    rw [← liesIn_map_bare, h.bare] at hin
    refine ⟨⟨run, by simp, call, hcall, hin, hskipped, hplace⟩, routine.bare, ?_, hopen⟩
    rw [← h.bare, List.getElem?_map, hroutine, Option.map_some]

theorem InStep.populate (h : InStep start byKey runs before) (run : CallRun) :
    InStep start byKey (runs ++ [run]) (populate before byKey run.calls run.targets).routines := by
  have hnoted := h.noted run
  exact inStep_of_mayCall (hnoted.bare.trans h.bare) hnoted.mirrored hnoted.allowed

end

theorem inStep_start {start : List Routine} (byKey : RoutineIndex)
    (h : ∀ routine ∈ start, routine.callers = ∅ ∧ routine.callees = ∅) :
    InStep start byKey [] start := by
  have hcalls (i j : Nat) : ¬ Calls start i j := by
    rintro ⟨routine, hroutine, hj⟩
    rw [(h routine (List.mem_of_getElem? hroutine)).2] at hj
    exact Std.ExtTreeSet.not_mem_empty hj
  have hcalledBy (i j : Nat) : ¬ CalledBy start j i := by
    rintro ⟨routine, hroutine, hi⟩
    rw [(h routine (List.mem_of_getElem? hroutine)).1] at hi
    exact Std.ExtTreeSet.not_mem_empty hi
  apply inStep_of_mayCall
  · have hbare : ∀ routine ∈ start, routine.bare = routine := by
      intro routine hroutine
      obtain ⟨hcallers, hcallees⟩ := h routine hroutine
      cases routine
      simp_all [Routine.bare]
    rw [List.map_congr_left hbare, List.map_id']
  · exact fun i j => ⟨fun hc => absurd hc (hcalls i j), fun hc => absurd hc (hcalledBy i j)⟩
  · exact fun i j hc => absurd hc (hcalls i j)

/-- Many more runs. -/
theorem InStep.afterRuns {start before : List Routine} {byKey : RoutineIndex}
    {done : List CallRun} (h : InStep start byKey done before) (runs : List CallRun) :
    InStep start byKey (done ++ runs) (afterRuns before byKey runs) := by
  induction runs generalizing done before with
  | nil => rwa [List.append_nil]
  | cons run runs ih =>
    rw [List.append_cons]
    exact ih (h.populate run)

/-- After every run, the edges stand at both their ends, join functions of the
list, never lead to an ignored function, and come from calls of the runs; apart
from them, the functions are those of the start. The run counts all its calls
and all edges that it adds, and counts no call twice. -/
theorem runs_keep_the_ends_in_step {start : List Routine} (byKey : RoutineIndex)
    (h : ∀ routine ∈ start, routine.callers = ∅ ∧ routine.callees = ∅) (runs : List CallRun)
    (run : CallRun) :
    let before := afterRuns start byKey runs
    let graph := populate before byKey run.calls run.targets
    InStep start byKey (runs ++ [run]) graph.routines ∧
      graph.stats.calls = run.calls.length ∧
      edgeCount graph.routines = edgeCount before + graph.stats.edges ∧
      graph.stats.skipped + graph.stats.unresolved + graph.stats.ignored + graph.stats.edges ≤
        graph.stats.scanned := by
  have hbefore := (inStep_start byKey h).afterRuns runs
  have hnoted := hbefore.noted run
  exact ⟨hbefore.populate run, hnoted.calls, hnoted.grown, hnoted.split⟩

/-- A function that calls itself, an ignored one, and one in two parts. -/
def loopRoutines : List Routine :=
  [{ key := .root "A", address := 0x100, regions := [⟨0x100, 0x1FF⟩] },
    { key := .root "B", address := 0x200, regions := [⟨0x200, 0x2FF⟩], index := 1,
      ignored := true },
    { key := .root "C", address := 0x300, regions := [⟨0x300, 0x3FF⟩, ⟨0x180, 0x1FF⟩], index := 2 }]

/-- The places of the functions. -/
def loopIndex : RoutineIndex :=
  .ofList [(TypeKey.root "A", 0), (TypeKey.root "B", 1), (TypeKey.root "C", 2)]

/-- Calls of all three functions, two of them at one address. -/
def loopRun : CallRun :=
  { calls := [⟨0x104, "A"⟩, ⟨0x108, "B"⟩, ⟨0x10C, "C"⟩, ⟨0x190, "A"⟩, ⟨0x190, "C"⟩], targets := {} }

/-- The second run has the same calls and adds no edge. -/
theorem a_run_again_keeps_the_ends_in_step :
    (∀ routine ∈ loopRoutines, routine.callers = ∅ ∧ routine.callees = ∅) ∧
      InStep loopRoutines loopIndex [loopRun, loopRun]
        (afterRuns loopRoutines loopIndex [loopRun, loopRun]) ∧
      (afterRuns loopRoutines loopIndex [loopRun, loopRun]).map (·.callees.toList) =
        [[0, 2], [], [0, 2]] := by
  have hnone : ∀ routine ∈ loopRoutines, routine.callers = ∅ ∧ routine.callees = ∅ := by
    simp [loopRoutines]
  refine ⟨hnone, (runs_keep_the_ends_in_step loopIndex hnone [loopRun] loopRun).1, ?_⟩
  have hsorted : CallRecord.sorted loopRun.calls = loopRun.calls :=
    List.mergeSort_of_pairwise (by decide)
  simp only [afterRuns, List.foldl_cons, List.foldl_nil, populate, hsorted]
  decide +kernel

end CallGraph

end BinaryAtlas
