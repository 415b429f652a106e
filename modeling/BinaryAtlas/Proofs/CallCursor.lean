-- The laws of the call cursor. One cursor serves all regions, and it moves
-- both ways. Where no two calls have one address, it still meets in each
-- region every call that lies there, so the graph is that of a plain search
-- of the whole trace for each region.
import BinaryAtlas.Calls.Graph

namespace BinaryAtlas

/-! ## Ascending calls -/

section

variable {Item : Type} (addressOf : Item → UInt32)

theorem address_le_trans (a b c : Item) (hab : decide (addressOf a ≤ addressOf b) = true)
    (hbc : decide (addressOf b ≤ addressOf c) = true) :
    decide (addressOf a ≤ addressOf c) = true := by
  simp only [decide_eq_true_eq] at *
  exact UInt32.le_trans hab hbc

theorem address_le_total (a b : Item) :
    (decide (addressOf a ≤ addressOf b) || decide (addressOf b ≤ addressOf a)) = true := by
  simpa using UInt32.le_total (addressOf a) (addressOf b)

/-- What is sorted by its addresses stands in the order of the addresses. -/
theorem pairwise_mergeSort_address (items : List Item) :
    (items.mergeSort fun a b => addressOf a ≤ addressOf b).Pairwise fun a b =>
      addressOf a ≤ addressOf b := by
  have h := List.pairwise_mergeSort (address_le_trans addressOf) (address_le_total addressOf) items
  exact h.imp fun hab => by simpa using hab

/-- What is sorted by its addresses keeps its order where it shares an address. -/
theorem filter_mergeSort_address (items : List Item) (address : UInt32) :
    (items.mergeSort fun a b => addressOf a ≤ addressOf b).filter (addressOf · == address) =
      items.filter (addressOf · == address) := by
  have hsame : (items.filter (addressOf · == address)).Pairwise fun a b =>
      decide (addressOf a ≤ addressOf b) = true := by
    refine List.pairwise_iff_getElem.mpr fun i j hi hj _ => ?_
    have hleft := (List.mem_filter.mp (List.getElem_mem hi)).2
    have hright := (List.mem_filter.mp (List.getElem_mem hj)).2
    rw [beq_iff_eq] at hleft hright
    rw [hleft, hright, decide_eq_true_eq]
    exact UInt32.le_refl address
  -- Items of one address are sorted already, so they are a sublist of the sorted list; and
  -- a sublist of the same length is the whole list.
  have hsub := List.sublist_mergeSort (address_le_trans addressOf) (address_le_total addressOf)
    hsame List.filter_sublist
  have hfilter := hsub.filter (addressOf · == address)
  simp only [List.filter_filter, Bool.and_self] at hfilter
  refine (hfilter.eq_of_length ?_).symm
  exact ((List.mergeSort_perm items _).filter _).length_eq.symm

end

namespace CallRecord

/-- The addresses ascend, and none stands twice. -/
def Ascending (calls : List CallRecord) : Prop :=
  calls.Pairwise fun a b => a.address < b.address

/-- The call lies inside the region. -/
def isInside (region : Region) (call : CallRecord) : Bool := region.contains call.address

theorem isInside_eq_false_of_before {region : Region} {call : CallRecord}
    (h : call.address < region.first) : call.isInside region = false := by
  have hn : ¬ region.first ≤ call.address := UInt32.not_le.mpr h
  simp [isInside, Region.contains, hn]

theorem isInside_eq_false_of_after {region : Region} {call : CallRecord}
    (h : region.last < call.address) : call.isInside region = false := by
  have hn : ¬ call.address ≤ region.last := UInt32.not_le.mpr h
  simp [isInside, Region.contains, hn]

theorem isInside_of_between {region : Region} {call : CallRecord}
    (hf : ¬ call.address < region.first) (hl : ¬ region.last < call.address) :
    call.isInside region = true := by
  simp [isInside, Region.contains, UInt32.not_lt.mp hf, UInt32.not_lt.mp hl]

theorem pairwise_sorted (calls : List CallRecord) :
    (sorted calls).Pairwise fun a b => a.address ≤ b.address :=
  pairwise_mergeSort_address address calls

/-- Sorted calls ascend where no address stands twice. -/
theorem ascending_sorted {calls : List CallRecord} (h : (calls.map address).Nodup) :
    Ascending (sorted calls) := by
  have hperm : (sorted calls).Perm calls := List.mergeSort_perm _ _
  have hne : (sorted calls).Pairwise fun a b => a.address ≠ b.address :=
    List.pairwise_map.mp ((hperm.map address).nodup_iff.mpr h)
  exact ((pairwise_sorted calls).and hne).imp fun hab => UInt32.lt_of_le_of_ne hab.1 hab.2

end CallRecord

namespace CallCursor

/-- All calls of the trace, wherever the cursor stands. -/
def calls (cursor : CallCursor) : List CallRecord := cursor.behind.reverse ++ cursor.ahead

/-! ## Back -/

theorem calls_rewindFrom (first : UInt32) (behind ahead : List CallRecord) :
    (rewindFrom first behind ahead).calls = behind.reverse ++ ahead := by
  induction behind generalizing ahead with
  | nil => simp [rewindFrom, calls]
  | cons call behind ih =>
    cases ahead with
    | nil =>
      rw [rewindFrom, ih]
      simp
    | cons next ahead =>
      rw [rewindFrom]
      split
      · rw [ih]
        simp
      · simp [calls]

/-- The cursor goes back to the first call, or until the next call lies at or
before the address. -/
theorem rewindFrom_stops (first : UInt32) (behind ahead : List CallRecord) :
    (rewindFrom first behind ahead).behind = [] ∨
      ∃ next rest, (rewindFrom first behind ahead).ahead = next :: rest ∧ next.address ≤ first := by
  induction behind generalizing ahead with
  | nil => exact .inl rfl
  | cons call behind ih =>
    cases ahead with
    | nil =>
      rw [rewindFrom]
      exact ih [call]
    | cons next ahead =>
      rw [rewindFrom]
      split
      · exact ih (call :: next :: ahead)
      · rename_i hnext
        exact .inr ⟨next, ahead, rfl, UInt32.not_lt.mp hnext⟩

/-- The cursor goes back far enough: what is left behind it lies before the
address. The next call lies at or before the address, so with ascending
addresses all calls before that one lie before it. -/
theorem behind_rewindFrom (first : UInt32) {behind ahead : List CallRecord}
    (h : CallRecord.Ascending (behind.reverse ++ ahead)) :
    ∀ call ∈ (rewindFrom first behind ahead).behind, call.address < first := by
  intro call hcall
  rcases rewindFrom_stops first behind ahead with hnone | ⟨next, rest, hahead, hnext⟩
  · rw [hnone] at hcall
    cases hcall
  · rw [← calls_rewindFrom first behind ahead, calls, hahead] at h
    have hbefore : call.address < next.address :=
      (List.pairwise_append.mp h).2.2 call (List.mem_reverse.mpr hcall) next List.mem_cons_self
    exact UInt32.lt_of_lt_of_le hbefore hnext

/-! ## Forwards -/

theorem calls_sweepFrom (region : Region) (behind ahead : List CallRecord) :
    (sweepFrom region behind ahead).2.calls = behind.reverse ++ ahead := by
  induction ahead generalizing behind with
  | nil => simp [sweepFrom, calls]
  | cons call ahead ih =>
    rw [sweepFrom]
    split
    · rw [ih]
      simp
    · split
      · simp [calls]
      · simp [ih]

/-- The cursor goes forwards far enough: of the calls ahead, it meets those
inside the region, in their order. -/
theorem met_sweepFrom {region : Region} (behind : List CallRecord) {ahead : List CallRecord}
    (h : ahead.Pairwise fun a b => a.address ≤ b.address) :
    (sweepFrom region behind ahead).1 = ahead.filter (·.isInside region) := by
  induction ahead generalizing behind with
  | nil => simp [sweepFrom]
  | cons call ahead ih =>
    obtain ⟨hcall, hrest⟩ := List.pairwise_cons.mp h
    rw [sweepFrom]
    split
    · rename_i hfirst
      rw [ih _ hrest, List.filter_cons_of_neg]
      simp [CallRecord.isInside_eq_false_of_before hfirst]
    · rename_i hfirst
      split
      · rename_i hlast
        symm
        rw [List.filter_eq_nil_iff]
        intro other hother
        have hle : call.address ≤ other.address := by
          rcases List.mem_cons.mp hother with rfl | hother
          · exact UInt32.le_refl _
          · exact hcall other hother
        simp [CallRecord.isInside_eq_false_of_after (UInt32.lt_of_lt_of_le hlast hle)]
      · rename_i hlast
        rw [List.filter_cons_of_pos (CallRecord.isInside_of_between hfirst hlast), ← ih _ hrest]

/-! ## One region -/

theorem calls_visit (cursor : CallCursor) (region : Region) :
    (cursor.visit region).2.calls = cursor.calls := by
  unfold visit
  rw [calls_sweepFrom]
  exact calls_rewindFrom region.first cursor.behind cursor.ahead

/-- Wherever the cursor comes from, it meets the calls inside the region. -/
theorem met_visit {cursor : CallCursor} (h : CallRecord.Ascending cursor.calls) (region : Region) :
    (cursor.visit region).1 = cursor.calls.filter (·.isInside region) := by
  have hback := calls_rewindFrom region.first cursor.behind cursor.ahead
  have hbehind := behind_rewindFrom region.first h
  unfold visit
  generalize rewindFrom region.first cursor.behind cursor.ahead = back at hback hbehind
  have hcalls : cursor.calls = back.behind.reverse ++ back.ahead := hback.symm
  have hnone : back.behind.reverse.filter (·.isInside region) = [] := by
    rw [List.filter_eq_nil_iff]
    intro call hcall
    have hlt := hbehind call (List.mem_reverse.mp hcall)
    simp [CallRecord.isInside_eq_false_of_before hlt]
  rw [hcalls] at h ⊢
  rw [List.filter_append, hnone, List.nil_append]
  exact met_sweepFrom _ ((List.pairwise_append.mp h).2.1.imp UInt32.le_of_lt)

/-! ## All regions -/

theorem visitAll_eq (cursor : CallCursor) (h : CallRecord.Ascending cursor.calls)
    (regions : List (Nat × Region)) :
    cursor.visitAll regions = regions.flatMap fun (caller, region) =>
      (cursor.calls.filter (·.isInside region)).map (caller, ·) := by
  induction regions generalizing cursor with
  | nil => rfl
  | cons entry regions ih =>
    obtain ⟨caller, region⟩ := entry
    have hmet := met_visit h region
    have hnext := calls_visit cursor region
    rcases hv : cursor.visit region with ⟨met, next⟩
    rw [hv] at hmet hnext
    simp only at hmet hnext
    simp only [visitAll, hv, List.flatMap_cons]
    rw [hmet, ih next (by rw [hnext]; exact h), hnext]

/-! ## Places

A cursor is also a place in the list of calls: the number of calls behind it.
The moves below are those of the cursor with every bound checked. A step back
from the first place, and a look at a call past the last one, are faults. -/

/-- Back from a place, as `rewindFrom` goes back. A fault gives none. -/
def rewindPlace? (calls : List CallRecord) (first : UInt32) : Nat → Option Nat
  | 0 => if calls.length ≤ 0 then none else some 0
  | place + 1 =>
    if calls.length ≤ place + 1 then rewindPlace? calls first place
    else
      match calls[place + 1]? with
      | none => none
      | some call =>
        if first < call.address then rewindPlace? calls first place else some (place + 1)

/-- Forwards from a place, as `sweepFrom` goes forwards. The end of the calls
ends the way. -/
def sweepPlace (calls : List CallRecord) (region : Region) (place : Nat) : List CallRecord × Nat :=
  if h : place < calls.length then
    if calls[place].address < region.first then sweepPlace calls region (place + 1)
    else if region.last < calls[place].address then ([], place)
    else
      let (met, stop) := sweepPlace calls region (place + 1)
      (calls[place] :: met, stop)
  else ([], place)
termination_by calls.length - place

/-- The calls met in regions by a place in the calls. A fault gives none. -/
def visitPlaces? (calls : List CallRecord) : Nat → List (Nat × Region) →
    Option (List (Nat × CallRecord))
  | _, [] => some []
  | place, (caller, region) :: regions =>
    match rewindPlace? calls region.first place with
    | none => none
    | some start =>
      let (met, stop) := sweepPlace calls region start
      (visitPlaces? calls stop regions).map (met.map (caller, ·) ++ ·)

/-- With any call at all, going back has no fault, and ends at a call. -/
theorem rewindPlace?_eq (first : UInt32) {behind ahead : List CallRecord}
    (h : behind.reverse ++ ahead ≠ []) :
    rewindPlace? (behind.reverse ++ ahead) first behind.length =
        some (rewindFrom first behind ahead).behind.length ∧
      (rewindFrom first behind ahead).ahead ≠ [] := by
  induction behind generalizing ahead with
  | nil =>
    have hlen : ¬ ahead.length ≤ 0 := by
      intro hle
      exact h (List.length_eq_zero_iff.mp (by simpa using hle))
    simp only [List.reverse_nil, List.nil_append, List.length_nil, rewindPlace?, rewindFrom, hlen,
      if_false]
    exact ⟨trivial, by simpa using h⟩
  | cons call behind ih =>
    -- A step back takes one call over the cut; the whole list stays the same.
    have hcut : (call :: behind).reverse ++ ahead = behind.reverse ++ (call :: ahead) := by simp
    have ih := @ih (call :: ahead) (by simp)
    rw [hcut, List.length_cons, rewindPlace?]
    cases ahead with
    | nil =>
      rw [if_pos (by simp), rewindFrom]
      exact ih
    | cons next ahead =>
      have hnext : (behind.reverse ++ call :: next :: ahead)[behind.length + 1]? = some next := by
        rw [List.getElem?_append_right (by simp)]
        simp
      rw [if_neg (by simp), hnext, rewindFrom]
      simp only
      split
      · exact ih
      · exact ⟨rfl, by simp⟩

theorem sweepPlace_eq (region : Region) (behind ahead : List CallRecord) :
    sweepPlace (behind.reverse ++ ahead) region behind.length =
      ((sweepFrom region behind ahead).1, (sweepFrom region behind ahead).2.behind.length) := by
  induction ahead generalizing behind with
  | nil =>
    rw [sweepPlace]
    simp [sweepFrom]
  | cons call ahead ih =>
    have hlt : behind.length < (behind.reverse ++ call :: ahead).length := by simp
    have hcall : (behind.reverse ++ call :: ahead)[behind.length] = call := by simp
    have ih := ih (call :: behind)
    rw [List.reverse_cons, List.append_assoc, List.singleton_append, List.length_cons] at ih
    rw [sweepPlace, dif_pos hlt, hcall, sweepFrom, ih]
    split
    · rfl
    · split <;> rfl

/-- The place goes the way of the cursor through all regions, and has no
fault on it. -/
theorem visitPlaces?_eq (cursor : CallCursor) (h : cursor.calls ≠ [])
    (regions : List (Nat × Region)) :
    visitPlaces? cursor.calls cursor.behind.length regions = some (cursor.visitAll regions) := by
  induction regions generalizing cursor with
  | nil => rfl
  | cons entry regions ih =>
    obtain ⟨caller, region⟩ := entry
    obtain ⟨hback, -⟩ := rewindPlace?_eq region.first h
    have hsweep := sweepPlace_eq region (rewindFrom region.first cursor.behind cursor.ahead).behind
      (rewindFrom region.first cursor.behind cursor.ahead).ahead
    have hkeep := calls_rewindFrom region.first cursor.behind cursor.ahead
    have hnext := calls_visit cursor region
    have ih := ih (cursor.visit region).2 (by rw [hnext]; exact h)
    unfold calls at hkeep
    rw [hkeep] at hsweep
    rw [hnext] at ih
    unfold visit at ih
    simp only [visitPlaces?, visitAll, visit]
    unfold calls at ih ⊢
    rw [hback]
    simp only [hsweep, ih, Option.map_some]

end CallCursor

end BinaryAtlas
