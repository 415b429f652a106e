-- The order of a trace. The cursor goes by addresses alone, so a trace in
-- another order leads it the same way; and the graph does not mind in which
-- order calls are noted. What order can change is which of the calls at one
-- address the cursor comes back to: it stops at the last of them. So the
-- order counts only where a region starts at an address that calls share.
import BinaryAtlas.Proofs.CallCursor
import Mathlib.Data.List.Basic

namespace BinaryAtlas

namespace CallCursor

/-! ## Cursors side by side -/

/-- Two cursors in traces with the same addresses, at the same place. -/
structure Aligned (cursor cursor' : CallCursor) : Prop where
  behind : cursor.behind.map CallRecord.address = cursor'.behind.map CallRecord.address
  ahead : cursor.ahead.map CallRecord.address = cursor'.ahead.map CallRecord.address

theorem aligned_rewindFrom (first : UInt32) {behind ahead behind' ahead' : List CallRecord}
    (hbehind : behind.map CallRecord.address = behind'.map CallRecord.address)
    (hahead : ahead.map CallRecord.address = ahead'.map CallRecord.address) :
    Aligned (rewindFrom first behind ahead) (rewindFrom first behind' ahead') := by
  induction behind generalizing ahead behind' ahead' with
  | nil =>
    obtain rfl := List.map_eq_nil_iff.mp hbehind.symm
    exact ⟨rfl, hahead⟩
  | cons call behind ih =>
    obtain ⟨call', behind', rfl, hcall, hbehind'⟩ := List.map_eq_cons_iff.mp hbehind.symm
    cases ahead with
    | nil =>
      obtain rfl := List.map_eq_nil_iff.mp hahead.symm
      rw [rewindFrom, rewindFrom]
      exact ih hbehind'.symm (by simp [hcall])
    | cons next ahead =>
      obtain ⟨next', ahead', rfl, hnext, hahead'⟩ := List.map_eq_cons_iff.mp hahead.symm
      rw [rewindFrom, rewindFrom, hnext]
      split
      · exact ih hbehind'.symm (by simp [hcall, hnext, hahead'])
      · exact ⟨hbehind, hahead⟩

theorem aligned_sweepFrom (region : Region) {behind ahead behind' ahead' : List CallRecord}
    (hbehind : behind.map CallRecord.address = behind'.map CallRecord.address)
    (hahead : ahead.map CallRecord.address = ahead'.map CallRecord.address) :
    Aligned (sweepFrom region behind ahead).2 (sweepFrom region behind' ahead').2 := by
  induction ahead generalizing behind behind' ahead' with
  | nil =>
    obtain rfl := List.map_eq_nil_iff.mp hahead.symm
    exact ⟨hbehind, rfl⟩
  | cons call ahead ih =>
    obtain ⟨call', ahead', rfl, hcall, hahead'⟩ := List.map_eq_cons_iff.mp hahead.symm
    have hnext : (call :: behind).map CallRecord.address =
        (call' :: behind').map CallRecord.address := by
      simp [hcall, hbehind]
    rw [sweepFrom, sweepFrom, hcall]
    split
    · exact ih hnext hahead'.symm
    · split
      · exact ⟨hbehind, hahead⟩
      · exact ih hnext hahead'.symm

/-- The cursor goes by addresses alone. -/
theorem Aligned.visit {cursor cursor' : CallCursor} (h : Aligned cursor cursor')
    (region : Region) : Aligned (cursor.visit region).2 (cursor'.visit region).2 := by
  have hback := aligned_rewindFrom region.first h.behind h.ahead
  exact aligned_sweepFrom region hback.behind hback.ahead

/-! ## One region -/

/-- Calls that the cursor leaves behind inside a region lie at its first address. -/
theorem address_of_behind {cursor : CallCursor} {region : Region}
    (hsorted : cursor.calls.Pairwise fun a b => a.address ≤ b.address) {call : CallRecord}
    (hcall : call ∈ (rewindFrom region.first cursor.behind cursor.ahead).behind)
    (hinside : call.isInside region = true) : call.address = region.first := by
  have hfirst : region.first ≤ call.address := by
    simp only [CallRecord.isInside, Region.contains, Bool.and_eq_true, decide_eq_true_eq] at hinside
    exact hinside.1
  rcases rewindFrom_stops region.first cursor.behind cursor.ahead with
    hnone | ⟨next, rest, hahead, hnext⟩
  · rw [hnone] at hcall
    cases hcall
  · have hkeep := calls_rewindFrom region.first cursor.behind cursor.ahead
    rw [calls, ← hkeep, calls, hahead] at hsorted
    have hle : call.address ≤ next.address :=
      (List.pairwise_append.mp hsorted).2.2 call (List.mem_reverse.mpr hcall) next
        List.mem_cons_self
    exact UInt32.le_antisymm (UInt32.le_trans hle hnext) hfirst

/-- What the cursor has passed inside a region, and what it meets there, are
all calls inside the region. -/
theorem passed_append_met {cursor : CallCursor} (region : Region)
    (hsorted : cursor.calls.Pairwise fun a b => a.address ≤ b.address) :
    ((rewindFrom region.first cursor.behind cursor.ahead).behind.reverse.filter
        (·.isInside region)) ++ (cursor.visit region).1 =
      cursor.calls.filter (·.isInside region) := by
  have hkeep := calls_rewindFrom region.first cursor.behind cursor.ahead
  unfold visit
  unfold calls at hkeep hsorted ⊢
  generalize rewindFrom region.first cursor.behind cursor.ahead = back at hkeep
  rw [← hkeep] at hsorted ⊢
  rw [List.filter_append]
  simp only
  rw [met_sweepFrom _ (List.pairwise_append.mp hsorted).2.1]

section

variable {Mark : Type} (mark : CallRecord → Mark)

/-- Lists of the same length whose items all have marks of their own kind. -/
theorem map_eq_map_of_marks {calls calls' : List CallRecord}
    (hlength : calls.length = calls'.length)
    (hmark : ∀ a ∈ calls, ∀ b ∈ calls', mark a = mark b) : calls.map mark = calls'.map mark := by
  apply List.ext_getElem
  · simp [hlength]
  · intro i h h'
    rw [List.getElem_map, List.getElem_map]
    exact hmark _ (List.getElem_mem _) _ (List.getElem_mem _)

/-- Two orders of one trace give the same marks in a region, if the calls at
its first address all have the same mark. -/
theorem perm_met_visit {cursor cursor' : CallCursor} (h : Aligned cursor cursor')
    (hperm : cursor.calls.Perm cursor'.calls)
    (hsorted : cursor.calls.Pairwise fun a b => a.address ≤ b.address)
    (hsorted' : cursor'.calls.Pairwise fun a b => a.address ≤ b.address) {region : Region}
    (hmark : ∀ a ∈ cursor.calls, ∀ b ∈ cursor.calls, a.address = region.first →
      b.address = region.first → mark a = mark b) :
    ((cursor.visit region).1.map mark).Perm ((cursor'.visit region).1.map mark) := by
  have hall := (hperm.filter (·.isInside region)).map mark
  rw [← passed_append_met region hsorted, ← passed_append_met region hsorted', List.map_append,
    List.map_append] at hall
  have hback := aligned_rewindFrom region.first h.behind h.ahead
  have hcalls := calls_rewindFrom region.first cursor.behind cursor.ahead
  have hcalls' := calls_rewindFrom region.first cursor'.behind cursor'.ahead
  have hpassed : (((rewindFrom region.first cursor.behind cursor.ahead).behind.reverse.filter
        (·.isInside region)).map mark) =
      ((rewindFrom region.first cursor'.behind cursor'.ahead).behind.reverse.filter
        (·.isInside region)).map mark := by
    apply map_eq_map_of_marks mark
    · -- Both cursors have left the same addresses behind.
      have hcount (calls : List CallRecord) : (calls.reverse.filter (·.isInside region)).length =
          ((calls.map CallRecord.address).filter region.contains).length := by
        rw [List.filter_reverse, List.length_reverse, List.filter_map, List.length_map]
        rfl
      rw [hcount, hcount, hback.behind]
    · intro a ha b hb
      obtain ⟨ha, hina⟩ := List.mem_filter.mp ha
      obtain ⟨hb, hinb⟩ := List.mem_filter.mp hb
      have hamem : a ∈ cursor.calls := by
        rw [calls, ← hcalls]
        exact List.mem_append_left _ ha
      have hbmem : b ∈ cursor'.calls := by
        rw [calls, ← hcalls']
        exact List.mem_append_left _ hb
      exact hmark a hamem b (hperm.mem_iff.mpr hbmem)
        (address_of_behind hsorted (List.mem_reverse.mp ha) hina)
        (address_of_behind hsorted' (List.mem_reverse.mp hb) hinb)
  rw [hpassed] at hall
  exact (List.perm_append_left_iff _).mp hall

/-! ## All regions -/

theorem perm_visitAll {cursor cursor' : CallCursor} (h : Aligned cursor cursor')
    (hperm : cursor.calls.Perm cursor'.calls)
    (hsorted : cursor.calls.Pairwise fun a b => a.address ≤ b.address)
    (hsorted' : cursor'.calls.Pairwise fun a b => a.address ≤ b.address)
    {regions : List (Nat × Region)}
    (hmark : ∀ entry ∈ regions, ∀ a ∈ cursor.calls, ∀ b ∈ cursor.calls,
      a.address = entry.2.first → b.address = entry.2.first → mark a = mark b) :
    ((cursor.visitAll regions).map fun met => (met.1, mark met.2)).Perm
      ((cursor'.visitAll regions).map fun met => (met.1, mark met.2)) := by
  induction regions generalizing cursor cursor' with
  | nil => exact .nil
  | cons entry regions ih =>
    obtain ⟨caller, region⟩ := entry
    have hmet := (perm_met_visit mark h hperm hsorted hsorted'
      (hmark (caller, region) List.mem_cons_self)).map fun m => (caller, m)
    have hkeep := calls_visit cursor region
    have hkeep' := calls_visit cursor' region
    have hrest := ih (h.visit region) (by rwa [hkeep, hkeep']) (by rwa [hkeep]) (by rwa [hkeep'])
      (fun e he => by rw [hkeep]; exact hmark e (List.mem_cons_of_mem _ he))
    simp only [visitAll, List.map_append]
    rw [List.map_map] at hmet ⊢
    rw [List.map_map] at hmet ⊢
    exact hmet.append hrest

end

end CallCursor

/-! ## Noting calls in any order -/

namespace CallGraph

/-- A function with what one edge adds to it. -/
def linked (caller callee place : Nat) (routine : Routine) : Routine :=
  { routine with
    callees := if caller = place then routine.callees.insert callee else routine.callees
    callers := if callee = place then routine.callers.insert caller else routine.callers }

theorem getElem?_addEdge (routines : List Routine) (caller callee place : Nat) :
    (addEdge routines caller callee)[place]? =
      routines[place]?.map (linked caller callee place) := by
  unfold addEdge
  rw [List.getElem?_modify, List.getElem?_modify]
  cases routines[place]? with
  | none => rfl
  | some routine =>
    unfold linked
    simp only [Option.map_eq_map, Option.map_some]
    split <;> split <;> rfl

theorem insert_comm (places : Std.ExtTreeSet Nat) (a b : Nat) :
    (places.insert a).insert b = (places.insert b).insert a := by
  apply Std.ExtTreeSet.ext_mem
  intro place
  simp only [Std.ExtTreeSet.mem_insert]
  exact or_left_comm

theorem linked_comm (caller callee caller' callee' place : Nat) (routine : Routine) :
    linked caller' callee' place (linked caller callee place routine) =
      linked caller callee place (linked caller' callee' place routine) := by
  have hinsert (p q : Prop) [Decidable p] [Decidable q] (places : Std.ExtTreeSet Nat) (a b : Nat) :
      (if q then (if p then places.insert a else places).insert b
        else if p then places.insert a else places) =
      if p then (if q then places.insert b else places).insert a
        else if q then places.insert b else places := by
    by_cases hp : p
    · by_cases hq : q
      · simp only [hp, hq, if_true]
        exact insert_comm places a b
      · simp only [hp, hq, if_true, if_false]
    · simp only [hp, if_false]
  unfold linked
  simp only [hinsert]

theorem addEdge_comm (routines : List Routine) (caller callee caller' callee' : Nat) :
    addEdge (addEdge routines caller callee) caller' callee' =
      addEdge (addEdge routines caller' callee') caller callee := by
  apply List.ext_getElem?
  intro place
  simp only [getElem?_addEdge, Option.map_map]
  congr 1
  funext routine
  exact linked_comm caller callee caller' callee' place routine

/-- Another edge makes no difference to an edge. -/
theorem hasEdge_addEdge {caller callee caller' callee' : Nat}
    (h : ¬ (caller = caller' ∧ callee = callee')) (routines : List Routine) :
    hasEdge (addEdge routines caller callee) caller' callee' =
      hasEdge routines caller' callee' := by
  unfold hasEdge
  rw [getElem?_addEdge]
  cases routines[caller']? with
  | none => rfl
  | some routine =>
    simp only [Option.map_some, linked]
    split
    · rename_i hcaller
      have hcallee : callee ≠ callee' := fun he => h ⟨hcaller, he⟩
      rw [Std.ExtTreeSet.contains_insert]
      simp [hcallee]
    · rfl

/-- Two calls may be noted in either order. -/
theorem note_comm (graph : CallGraph) (caller caller' : Nat) (verdict verdict' : CallVerdict) :
    (graph.note caller verdict).note caller' verdict' =
      (graph.note caller' verdict').note caller verdict := by
  cases verdict with
  | edge callee =>
    cases verdict' with
    | edge callee' =>
      by_cases hsame : caller = caller' ∧ callee = callee'
      · obtain ⟨rfl, rfl⟩ := hsame
        rfl
      · have hsame' : ¬ (caller' = caller ∧ callee' = callee) := fun h => hsame ⟨h.1.symm, h.2.symm⟩
        by_cases h : hasEdge graph.routines caller callee <;>
          by_cases h' : hasEdge graph.routines caller' callee' <;>
            simp only [note, addEdge_comm _ caller callee, hasEdge_addEdge hsame,
              hasEdge_addEdge hsame', h, h', if_true, if_false, Bool.false_eq_true]
    | _ => by_cases h : hasEdge graph.routines caller callee <;> simp [note, h]
  | _ =>
    cases verdict' with
    | edge callee' => by_cases h : hasEdge graph.routines caller' callee' <;> simp [note, h]
    | _ => rfl

/-! ## The whole graph -/

/-- All calls of a trace with their verdicts, in the order of the regions. -/
theorem populate_eq (routines : List Routine) (byKey : RoutineIndex) (calls : List CallRecord)
    (targets : CallTargets) :
    populate routines byKey calls targets =
      ((CallCursor.visitAll { behind := [], ahead := CallRecord.sorted calls }
        (Routine.regionsOf routines)).map fun met =>
          (met.1, met.2.verdict routines byKey targets)).foldl
            (fun graph entry => graph.note entry.1 entry.2)
            { routines, stats := { calls := calls.length } } := by
  rw [List.foldl_map]
  rfl

/-- A region is listed with the place of its function. -/
theorem getElem?_of_mem_regionsOf {routines : List Routine} {entry : Nat × Region}
    (h : entry ∈ Routine.regionsOf routines) :
    ∃ routine, routines[entry.1]? = some routine ∧ entry.2 ∈ routine.regions := by
  obtain ⟨⟨routine, place⟩, hroutine, hentry⟩ := List.mem_flatMap.mp h
  obtain ⟨region, hregion, rfl⟩ := List.mem_map.mp hentry
  exact ⟨routine, List.mem_zipIdx_iff_getElem?.mp hroutine, hregion⟩

theorem mem_regionsOf {routines : List Routine} {entry : Nat × Region}
    (h : entry ∈ Routine.regionsOf routines) :
    ∃ routine ∈ routines, entry.2 ∈ routine.regions := by
  obtain ⟨routine, hroutine, hregion⟩ := getElem?_of_mem_regionsOf h
  exact ⟨routine, List.mem_of_getElem? hroutine, hregion⟩

/-- The order of a trace makes no difference to the graph, to its edges and to
its counts, if the calls at the first address of a region all have the same
verdict; calls at other addresses may be as many and as different as they
like. -/
theorem the_order_of_calls_makes_no_difference {routines : List Routine} {byKey : RoutineIndex}
    {calls calls' : List CallRecord} {targets : CallTargets} (hperm : calls.Perm calls')
    (hshared : ∀ routine ∈ routines, ∀ region ∈ routine.regions, ∀ a ∈ calls, ∀ b ∈ calls,
      a.address = region.first → b.address = region.first →
        a.verdict routines byKey targets = b.verdict routines byKey targets) :
    populate routines byKey calls targets = populate routines byKey calls' targets := by
  have hmem (call : CallRecord) : call ∈ CallRecord.sorted calls ↔ call ∈ calls :=
    (List.mergeSort_perm _ _).mem_iff
  have hsorted : (CallRecord.sorted calls).Perm (CallRecord.sorted calls') :=
    (List.mergeSort_perm _ _).trans (hperm.trans (List.mergeSort_perm _ _).symm)
  have haddresses : (CallRecord.sorted calls).map CallRecord.address =
      (CallRecord.sorted calls').map CallRecord.address := by
    refine (hsorted.map CallRecord.address).eq_of_pairwise ?_
      (List.pairwise_map.mpr (CallRecord.pairwise_sorted calls))
      (List.pairwise_map.mpr (CallRecord.pairwise_sorted calls'))
    exact fun a b _ _ hab hba => UInt32.le_antisymm hab hba
  have haligned : CallCursor.Aligned { behind := [], ahead := CallRecord.sorted calls }
      { behind := [], ahead := CallRecord.sorted calls' } := ⟨rfl, haddresses⟩
  have hmark : ∀ entry ∈ Routine.regionsOf routines, ∀ a ∈ CallRecord.sorted calls,
      ∀ b ∈ CallRecord.sorted calls, a.address = entry.2.first → b.address = entry.2.first →
        a.verdict routines byKey targets = b.verdict routines byKey targets := by
    intro entry hentry a ha b hb
    obtain ⟨routine, hroutine, hregion⟩ := mem_regionsOf hentry
    exact hshared routine hroutine entry.2 hregion a ((hmem a).mp ha) b ((hmem b).mp hb)
  have hmet := CallCursor.perm_visitAll (fun call => call.verdict routines byKey targets) haligned
    hsorted (CallRecord.pairwise_sorted calls) (CallRecord.pairwise_sorted calls') hmark
  rw [populate_eq, populate_eq, hperm.length_eq]
  apply hmet.foldl_eq'
  exact fun x _ y _ graph => note_comm graph x.1 y.1 x.2 y.2

/-- A function whose second part lies before its first one, and two others. -/
def backwardRoutines : List Routine :=
  [{ key := .root "A", address := 0x100, regions := [⟨0x200, 0x2FF⟩, ⟨0x100, 0x1FF⟩] },
    { key := .root "B", address := 0x300, index := 1 },
    { key := .root "C", address := 0x400, index := 2 }]

/-- The places of the functions. -/
def backwardIndex : RoutineIndex :=
  .ofList [(TypeKey.root "A", 0), (TypeKey.root "B", 1), (TypeKey.root "C", 2)]

/-- Two calls at one address in the middle of a region may change places. -/
theorem two_calls_of_one_address_change_places :
    List.Perm [⟨0x104, "B"⟩, ⟨0x104, "C"⟩] [⟨0x104, "C"⟩, (⟨0x104, "B"⟩ : CallRecord)] ∧
      populate backwardRoutines backwardIndex [⟨0x104, "B"⟩, ⟨0x104, "C"⟩] {} =
        populate backwardRoutines backwardIndex [⟨0x104, "C"⟩, ⟨0x104, "B"⟩] {} := by
  have hperm : List.Perm [⟨0x104, "B"⟩, ⟨0x104, "C"⟩] [⟨0x104, "C"⟩, (⟨0x104, "B"⟩ : CallRecord)] :=
    .swap _ _ _
  exact ⟨hperm, the_order_of_calls_makes_no_difference hperm (by decide +kernel)⟩

/-- Two calls at the address where a region starts may not. The first region
leaves the cursor behind both of them, and it goes back to the second one
only. -/
theorem of_two_calls_at_the_start_of_a_region_one_is_missed :
    List.Perm [⟨0x100, "B"⟩, ⟨0x100, "C"⟩] [⟨0x100, "C"⟩, (⟨0x100, "B"⟩ : CallRecord)] ∧
      (populate backwardRoutines backwardIndex [⟨0x100, "B"⟩, ⟨0x100, "C"⟩] {}).routines.map
        (·.callees.toList) = [[2], [], []] ∧
      (populate backwardRoutines backwardIndex [⟨0x100, "C"⟩, ⟨0x100, "B"⟩] {}).routines.map
        (·.callees.toList) = [[1], [], []] := by
  have hsorted (a b : CallRecord) (h : a.address = b.address) :
      CallRecord.sorted [a, b] = [a, b] := by
    apply List.mergeSort_of_pairwise
    simp [h]
  refine ⟨.swap _ _ _, ?_, ?_⟩
  · unfold populate
    rw [hsorted ⟨0x100, "B"⟩ ⟨0x100, "C"⟩ rfl]
    decide +kernel
  · unfold populate
    rw [hsorted ⟨0x100, "C"⟩ ⟨0x100, "B"⟩ rfl]
    decide +kernel

end CallGraph

end BinaryAtlas
