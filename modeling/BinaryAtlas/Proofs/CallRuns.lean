-- The laws of many runs. A run judges its calls by the regions of the functions and
-- by which of them are ignored, and no run changes those. So it judges the same
-- calls the same way whatever edges it finds, and the edges of many runs add up:
-- their order does not matter, and a run that comes again adds nothing.
import BinaryAtlas.Proofs.CallEdges

namespace BinaryAtlas

namespace CallGraph

/-! ## What steers a run -/

/-- The calls that a run meets, in order, each with the place of its caller and with
its verdict. -/
def judged (routines : List Routine) (byKey : RoutineIndex) (run : CallRun) :
    List (Nat × CallVerdict) :=
  (CallCursor.visitAll { behind := [], ahead := CallRecord.sorted run.calls }
    (Routine.regionsOf routines)).map fun met => (met.1, met.2.verdict routines byKey run.targets)

/-- The graph with judged calls, one after the other. -/
def noteAll (graph : CallGraph) (judged : List (Nat × CallVerdict)) : CallGraph :=
  judged.foldl (fun graph entry => graph.note entry.1 entry.2) graph

section

variable (routines : List Routine) (byKey : RoutineIndex) (run : CallRun)

theorem populate_eq_noteAll : populate routines byKey run.calls run.targets =
    noteAll { routines, stats := { calls := run.calls.length } } (judged routines byKey run) :=
  populate_eq routines byKey run.calls run.targets

/-- Edges have no say in the verdicts, nor in the way of the cursor. -/
theorem judged_bare :
    judged (routines.map Routine.bare) byKey run = judged routines byKey run := by
  have hregions : Routine.regionsOf (routines.map Routine.bare) = Routine.regionsOf routines := by
    unfold Routine.regionsOf
    rw [List.zipIdx_map, List.flatMap_map]
    rfl
  have hignored : Routine.ignoredOf (routines.map Routine.bare) = Routine.ignoredOf routines := by
    unfold Routine.ignoredOf
    rw [List.map_map]
    rfl
  unfold judged
  simp only [hregions, CallRecord.verdict_congr hignored]

end

theorem judged_congr {a b : List Routine} (h : a.map Routine.bare = b.map Routine.bare)
    (byKey : RoutineIndex) (run : CallRun) : judged a byKey run = judged b byKey run := by
  rw [← judged_bare a, h, judged_bare]

/-- Both ends of an edge are functions of the list. -/
theorem lt_of_mem_judged {routines : List Routine} {byKey : RoutineIndex} {run : CallRun}
    {i j : Nat} (h : (i, .edge j) ∈ judged routines byKey run) :
    i < routines.length ∧ j < routines.length := by
  obtain ⟨⟨caller, call⟩, hmet, heq⟩ := List.mem_map.mp h
  obtain ⟨rfl, hverdict⟩ := Prod.mk.inj heq
  have hsorted : (CallCursor.calls { behind := [], ahead := CallRecord.sorted run.calls }).Pairwise
      fun a b => a.address ≤ b.address := CallRecord.pairwise_sorted run.calls
  obtain ⟨-, region, hregion, -⟩ := CallCursor.mem_visitAll hsorted hmet
  obtain ⟨routine, hroutine, -⟩ := getElem?_of_mem_regionsOf hregion
  obtain ⟨-, -, other, hother, -⟩ := CallRecord.verdict_eq_edge hverdict
  exact ⟨(List.getElem?_eq_some_iff.mp hroutine).1, (List.getElem?_eq_some_iff.mp hother).1⟩

/-! ## One judged call -/

theorem insert_if_eq_self {places : Std.ExtTreeSet Nat} {p : Prop} [Decidable p] {place : Nat}
    (h : p → place ∈ places) : (if p then places.insert place else places) = places := by
  apply Std.ExtTreeSet.ext_mem
  intro other
  rw [mem_insert_if, or_iff_left_iff_imp]
  rintro ⟨hp, rfl⟩
  exact h hp

/-- An edge that stands at both its ends is there already. -/
theorem addEdge_eq_self {routines : List Routine} {caller callee : Nat}
    (hcalls : Calls routines caller callee) (hcalledBy : CalledBy routines callee caller) :
    addEdge routines caller callee = routines := by
  obtain ⟨start, hstart, hcallee⟩ := hcalls
  obtain ⟨stop, hstop, hcaller⟩ := hcalledBy
  apply List.ext_getElem?
  intro place
  rw [getElem?_addEdge]
  cases hroutine : routines[place]? with
  | none => rfl
  | some routine =>
    have hcallees : caller = place → callee ∈ routine.callees := by
      rintro rfl
      obtain rfl := Option.some.inj (hstart.symm.trans hroutine)
      exact hcallee
    have hcallers : callee = place → caller ∈ routine.callers := by
      rintro rfl
      obtain rfl := Option.some.inj (hstop.symm.trans hroutine)
      exact hcaller
    rw [Option.map_some, linked, insert_if_eq_self hcallees, insert_if_eq_self hcallers]

section

variable {graph graph' : CallGraph} {caller : Nat} {verdict : CallVerdict}

/-- The counts have no say in what becomes of the functions. -/
theorem routines_note_congr (h : graph.routines = graph'.routines) :
    (graph.note caller verdict).routines = (graph'.note caller verdict).routines := by
  cases verdict <;> simp only [note, h]

theorem map_bare_note :
    (graph.note caller verdict).routines.map Routine.bare = graph.routines.map Routine.bare :=
  map_note_of_keeps (fun _ _ => rfl) (fun _ _ => rfl) graph caller verdict

/-- The edges have no say in the other counts. -/
theorem counts_note_congr (h : { graph.stats with edges := 0 } = { graph'.stats with edges := 0 }) :
    { (graph.note caller verdict).stats with edges := 0 } =
      { (graph'.note caller verdict).stats with edges := 0 } := by
  rw [CallStats.mk.injEq] at h ⊢
  cases verdict with
  | edge callee =>
    by_cases hedge : hasEdge graph.routines caller callee <;>
      by_cases hedge' : hasEdge graph'.routines caller callee <;> simp_all [note]
  | skipped | ignored | unresolved => simp_all [note]

theorem note_of_present (h : ∀ callee, verdict = .edge callee →
      Calls graph.routines caller callee ∧ CalledBy graph.routines callee caller) :
    (graph.note caller verdict).routines = graph.routines ∧
      (graph.note caller verdict).stats.edges = graph.stats.edges := by
  cases verdict with
  | edge callee =>
    obtain ⟨hcalls, hcalledBy⟩ := h callee rfl
    have hedge : hasEdge graph.routines caller callee = true := by
      obtain ⟨routine, hroutine, hmem⟩ := hcalls
      rw [hasEdge, hroutine]
      exact hmem
    rw [note, addEdge_eq_self hcalls hcalledBy, if_pos hedge]
    exact ⟨rfl, rfl⟩
  | skipped | ignored | unresolved => exact ⟨rfl, rfl⟩

end

/-! ## Many judged calls -/

section

variable {graph graph' : CallGraph} {met met' : List (Nat × CallVerdict)}

theorem routines_noteAll_congr (h : graph.routines = graph'.routines) :
    (noteAll graph met).routines = (noteAll graph' met).routines := by
  induction met generalizing graph graph' with
  | nil => exact h
  | cons entry met ih => exact ih (routines_note_congr h)

theorem map_bare_noteAll :
    (noteAll graph met).routines.map Routine.bare = graph.routines.map Routine.bare := by
  induction met generalizing graph with
  | nil => rfl
  | cons entry met ih => exact ih.trans map_bare_note

theorem counts_noteAll_congr
    (h : { graph.stats with edges := 0 } = { graph'.stats with edges := 0 }) :
    { (noteAll graph met).stats with edges := 0 } =
      { (noteAll graph' met).stats with edges := 0 } := by
  induction met generalizing graph graph' with
  | nil => exact h
  | cons entry met ih => exact ih (counts_note_congr h)

/-- Calls whose edges are all there already change no function and count no edge. -/
theorem noteAll_of_present (h : ∀ i j, (i, .edge j) ∈ met →
      Calls graph.routines i j ∧ CalledBy graph.routines j i) :
    (noteAll graph met).routines = graph.routines ∧
      (noteAll graph met).stats.edges = graph.stats.edges := by
  induction met generalizing graph with
  | nil => exact ⟨rfl, rfl⟩
  | cons entry met ih =>
    obtain ⟨caller, verdict⟩ := entry
    have hfirst : ∀ callee, verdict = .edge callee →
        Calls graph.routines caller callee ∧ CalledBy graph.routines callee caller := by
      rintro callee rfl
      exact h caller callee List.mem_cons_self
    obtain ⟨hroutines, hedges⟩ := note_of_present hfirst
    obtain ⟨hrest, hedges'⟩ := @ih (graph.note caller verdict) fun i j hmem => by
      rw [hroutines]
      exact h i j (List.mem_cons_of_mem _ hmem)
    exact ⟨hrest.trans hroutines, hedges'.trans hedges⟩

theorem noteAll_perm (h : met.Perm met') : noteAll graph met = noteAll graph met' :=
  h.foldl_eq' (fun x _ y _ graph => note_comm graph x.1 y.1 x.2 y.2) graph

/-- The calls that are judged to be edges are the edges that are added, at the end
of the caller as at that of the callee. -/
theorem edges_noteAll {Edge : List Routine → Nat → Nat → Prop}
    (hadd : ∀ {routines caller callee}, caller < routines.length → callee < routines.length →
      ∀ i j, Edge (addEdge routines caller callee) i j ↔
        Edge routines i j ∨ i = caller ∧ j = callee)
    (hmet : ∀ i j, (i, .edge j) ∈ met → i < graph.routines.length ∧ j < graph.routines.length)
    (i j : Nat) : Edge (noteAll graph met).routines i j ↔
      Edge graph.routines i j ∨ (i, .edge j) ∈ met := by
  -- An edge out of the list would stand at no end, so the bounds go along.
  induction met generalizing graph with
  | nil => simp [noteAll]
  | cons entry met ih =>
    obtain ⟨caller, verdict⟩ := entry
    have hlength : (graph.note caller verdict).routines.length = graph.routines.length := by
      simpa using congrArg List.length map_bare_note
    have hfirst : Edge (graph.note caller verdict).routines i j ↔
        Edge graph.routines i j ∨ (i, .edge j) = (caller, verdict) := by
      cases verdict with
      | edge callee =>
        obtain ⟨hcaller, hcallee⟩ := hmet caller callee List.mem_cons_self
        rw [note, hadd hcaller hcallee, Prod.mk.injEq, CallVerdict.edge.injEq]
      | skipped | ignored | unresolved => simp [note]
    have hrest := @ih (graph.note caller verdict) fun i j hmem => by
      rw [hlength]
      exact hmet i j (List.mem_cons_of_mem _ hmem)
    rw [List.mem_cons, ← or_assoc, ← hfirst]
    exact hrest

theorem calls_noteAll
    (hmet : ∀ i j, (i, .edge j) ∈ met → i < graph.routines.length ∧ j < graph.routines.length)
    (i j : Nat) :
    Calls (noteAll graph met).routines i j ↔ Calls graph.routines i j ∨ (i, .edge j) ∈ met :=
  edges_noteAll (fun hcaller _ => calls_addEdge hcaller) hmet i j

theorem calledBy_noteAll
    (hmet : ∀ i j, (i, .edge j) ∈ met → i < graph.routines.length ∧ j < graph.routines.length)
    (j i : Nat) :
    CalledBy (noteAll graph met).routines j i ↔ CalledBy graph.routines j i ∨ (i, .edge j) ∈ met :=
  @edges_noteAll _ _ (fun routines i j => CalledBy routines j i)
    (fun _ hcallee i j => by rw [calledBy_addEdge hcallee, and_comm]) hmet i j

end

/-! ## Many runs -/

section

variable {routines : List Routine} {byKey : RoutineIndex} {run : CallRun}

theorem map_bare_populate :
    (populate routines byKey run.calls run.targets).routines.map Routine.bare =
      routines.map Routine.bare := by
  rw [populate_eq_noteAll, map_bare_noteAll]

theorem calls_populate (i j : Nat) :
    Calls (populate routines byKey run.calls run.targets).routines i j ↔
      Calls routines i j ∨ (i, .edge j) ∈ judged routines byKey run := by
  rw [populate_eq_noteAll]
  exact calls_noteAll (fun _ _ => lt_of_mem_judged) i j

theorem calledBy_populate (j i : Nat) :
    CalledBy (populate routines byKey run.calls run.targets).routines j i ↔
      CalledBy routines j i ∨ (i, .edge j) ∈ judged routines byKey run := by
  rw [populate_eq_noteAll]
  exact calledBy_noteAll (fun _ _ => lt_of_mem_judged) j i

/-- To functions without edges a run adds all edges that it judges to be some. -/
theorem calls_populate_bare (i j : Nat) :
    Calls (populate (routines.map Routine.bare) byKey run.calls run.targets).routines i j ↔
      (i, .edge j) ∈ judged routines byKey run := by
  rw [calls_populate, judged_bare, or_iff_right]
  rintro ⟨routine, hroutine, hj⟩
  obtain ⟨old, -, rfl⟩ := List.mem_map.mp (List.mem_of_getElem? hroutine)
  exact Std.ExtTreeSet.not_mem_empty hj

theorem calledBy_populate_bare (j i : Nat) :
    CalledBy (populate (routines.map Routine.bare) byKey run.calls run.targets).routines j i ↔
      (i, .edge j) ∈ judged routines byKey run := by
  rw [calledBy_populate, judged_bare, or_iff_right]
  rintro ⟨routine, hroutine, hi⟩
  obtain ⟨old, -, rfl⟩ := List.mem_map.mp (List.mem_of_getElem? hroutine)
  exact Std.ExtTreeSet.not_mem_empty hi

/-- The same run again finds all its edges. -/
theorem populate_again :
    let first := populate routines byKey run.calls run.targets
    let again := populate first.routines byKey run.calls run.targets
    again.routines = first.routines ∧ again.stats = { first.stats with edges := 0 } := by
  intro first again
  have hjudged : judged first.routines byKey run = judged routines byKey run :=
    judged_congr map_bare_populate byKey run
  have hpresent : ∀ i j, (i, .edge j) ∈ judged routines byKey run →
      Calls first.routines i j ∧ CalledBy first.routines j i := fun i j hmem =>
    ⟨(calls_populate i j).mpr (.inr hmem), (calledBy_populate j i).mpr (.inr hmem)⟩
  have hagain : again = noteAll
      { routines := first.routines, stats := { calls := run.calls.length } }
      (judged routines byKey run) := by
    rw [← hjudged]
    exact populate_eq_noteAll _ _ _
  have hcounts : { again.stats with edges := 0 } = { first.stats with edges := 0 } := by
    rw [hagain]
    unfold first
    rw [populate_eq_noteAll]
    exact counts_noteAll_congr rfl
  obtain ⟨hroutines, hedges⟩ : again.routines = first.routines ∧ again.stats.edges = 0 := by
    rw [hagain]
    exact noteAll_of_present hpresent
  refine ⟨hroutines, ?_⟩
  rw [← hcounts, ← hedges]

end

/-- All runs together note the calls that each run judges by the functions of the start. -/
theorem afterRuns_eq (routines : List Routine) (byKey : RoutineIndex) (runs : List CallRun) :
    afterRuns routines byKey runs =
      (noteAll { routines } (runs.flatMap (judged routines byKey))).routines := by
  induction runs generalizing routines with
  | nil => rfl
  | cons run runs ih =>
    have hjudged : judged (populate routines byKey run.calls run.targets).routines byKey =
        judged routines byKey := funext (judged_congr map_bare_populate byKey)
    have hfirst : (populate routines byKey run.calls run.targets).routines =
        (noteAll { routines } (judged routines byKey run)).routines := by
      rw [populate_eq_noteAll]
      exact routines_noteAll_congr rfl
    calc afterRuns routines byKey (run :: runs)
        = (noteAll { routines := (populate routines byKey run.calls run.targets).routines }
            (runs.flatMap (judged routines byKey))).routines := by
          rw [← hjudged]
          exact ih _
      _ = (noteAll (noteAll { routines } (judged routines byKey run))
            (runs.flatMap (judged routines byKey))).routines := routines_noteAll_congr hfirst
      _ = (noteAll { routines } ((run :: runs).flatMap (judged routines byKey))).routines := by
          rw [List.flatMap_cons, noteAll, noteAll, noteAll, List.foldl_append]

/-- Whatever the runs are, the functions keep all but their edges, and they have the
edges of the start and those that each run adds to functions without edges: one, at
both its ends, for each call that the run meets and judges to be an edge. So the
order of the runs makes no difference. A run that comes again at once changes no
function, counts no new edge, and has all other counts as before. -/
theorem runs_add_up_in_any_order (routines : List Routine) (byKey : RoutineIndex)
    (runs : List CallRun) :
    (afterRuns routines byKey runs).map Routine.bare = routines.map Routine.bare ∧
    (∀ i j, Calls (afterRuns routines byKey runs) i j ↔ Calls routines i j ∨ ∃ run ∈ runs,
      Calls (populate (routines.map Routine.bare) byKey run.calls run.targets).routines i j) ∧
    (∀ j i, CalledBy (afterRuns routines byKey runs) j i ↔ CalledBy routines j i ∨ ∃ run ∈ runs,
      CalledBy (populate (routines.map Routine.bare) byKey run.calls run.targets).routines j i) ∧
    (∀ (run : CallRun) (i j : Nat),
      let alone := populate (routines.map Routine.bare) byKey run.calls run.targets
      (Calls alone.routines i j ↔ (i, .edge j) ∈ judged routines byKey run) ∧
        (CalledBy alone.routines j i ↔ (i, .edge j) ∈ judged routines byKey run)) ∧
    (∀ runs', runs'.Perm runs → afterRuns routines byKey runs' = afterRuns routines byKey runs) ∧
    ∀ run : CallRun,
      let first := populate (afterRuns routines byKey runs) byKey run.calls run.targets
      let again := populate first.routines byKey run.calls run.targets
      again.routines = first.routines ∧ again.stats = { first.stats with edges := 0 } := by
  have hmet : ∀ i j, (i, .edge j) ∈ runs.flatMap (judged routines byKey) →
      i < routines.length ∧ j < routines.length := by
    intro i j hmem
    obtain ⟨run, -, hmem⟩ := List.mem_flatMap.mp hmem
    exact lt_of_mem_judged hmem
  refine ⟨?_, fun i j => ?_, fun j i => ?_, fun run i j => ?_, fun runs' hperm => ?_,
    fun run => populate_again⟩
  · rw [afterRuns_eq, map_bare_noteAll]
  · simp only [calls_populate_bare, ← List.mem_flatMap, afterRuns_eq]
    exact calls_noteAll hmet i j
  · simp only [calledBy_populate_bare, ← List.mem_flatMap, afterRuns_eq]
    exact calledBy_noteAll hmet j i
  · exact ⟨calls_populate_bare i j, calledBy_populate_bare j i⟩
  · rw [afterRuns_eq, afterRuns_eq, noteAll_perm (hperm.flatMap_right _)]

end CallGraph

end BinaryAtlas
