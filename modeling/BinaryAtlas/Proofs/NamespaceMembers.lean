-- The laws of the members of namespaces. A node is filled from the index of
-- the globals, which holds one place for each key. So of the globals that
-- share a key the last one is a member, once and of one node, and those
-- before it are members of none.
import BinaryAtlas.Proofs.LoadedPlaces
import BinaryAtlas.Proofs.NamespaceTree
import Mathlib.Data.List.Nodup

namespace BinaryAtlas

/-! ## The order of members -/

namespace Global

/-- By the name, then by the address. -/
def order : Global → Global → Ordering := compareLex (compareOn name?) (compareOn address)

instance : Std.TransCmp order :=
  inferInstanceAs (Std.TransCmp (compareLex (compareOn name?) (compareOn address)))

theorem le_trans {a b c : Global} (hab : a.le b = true) (hbc : b.le c = true) :
    a.le c = true := by
  have hab' : (order a b).isLE = true := hab
  have hac : (order a c).isLE = true := Std.TransCmp.isLE_trans hab' hbc
  exact hac

theorem le_of_not_le {a b : Global} (h : a.le b = false) : b.le a = true := by
  have hge : (order a b).isGE = true := by
    have hle : (order a b).isLE = false := h
    cases hord : order a b <;> simp [hord] at hle ⊢
  have hba : (order b a).isLE = true := Std.OrientedCmp.isLE_of_isGE hge
  exact hba

/-- Two globals with names, in the order of the names; if the names are the same, in the
order of the addresses. -/
def Before (a b : Global) : Prop :=
  ∃ m n, a.name? = some m ∧ b.name? = some n ∧ (m < n ∨ m = n ∧ a.address ≤ b.address)

theorem le_iff {a b : Global} {m n : String} (ha : a.name? = some m) (hb : b.name? = some n) :
    a.le b = true ↔ m < n ∨ m = n ∧ a.address ≤ b.address := by
  have hlt : compare (some m) (some n) = .lt ↔ m < n := compareOfLessAndEq_eq_lt
  unfold le
  rw [Ordering.isLE_then_iff_or, Std.isLE_compare, ha, hb, hlt, Std.compare_eq_iff_eq,
    Option.some.injEq]

/-- Places that are out of range stand behind all others. -/
theorem placeLe_iff (globals : List Global) (a b : Nat) :
    placeLe globals a b = true ↔
      (∃ ga gb, globals[a]? = some ga ∧ globals[b]? = some gb ∧ ga.le gb = true) ∨
        globals.length ≤ b ∧ a ≤ b := by
  unfold placeLe
  cases ha : globals[a]? with
  | none =>
    have hlen := List.getElem?_eq_none_iff.mp ha
    simp only [decide_eq_true_eq, reduceCtorEq, false_and, exists_false, false_or]
    omega
  | some ga =>
    have hlen := (List.getElem?_eq_some_iff.mp ha).1
    cases hb : globals[b]? with
    | none =>
      have hlen' := List.getElem?_eq_none_iff.mp hb
      simp [hlen']
    | some gb =>
      have hlen' := (List.getElem?_eq_some_iff.mp hb).1
      simp [Nat.not_le_of_lt hlen']

theorem placeLe_trans (globals : List Global) (a b c : Nat) (hab : placeLe globals a b = true)
    (hbc : placeLe globals b c = true) : placeLe globals a c = true := by
  rw [placeLe_iff] at *
  rcases hbc with ⟨gb, gc, hb, hc, hbc⟩ | ⟨hc, hbc⟩
  · rcases hab with ⟨ga, gb', ha, hb', hab⟩ | ⟨hb', -⟩
    · obtain rfl := Option.some.inj (hb.symm.trans hb')
      exact .inl ⟨ga, gc, ha, hc, le_trans hab hbc⟩
    · have hlt := (List.getElem?_eq_some_iff.mp hb).1
      omega
  · rcases hab with ⟨ga, gb, ha, -, -⟩ | ⟨-, hab⟩
    · have hlt := (List.getElem?_eq_some_iff.mp ha).1
      exact .inr ⟨hc, by omega⟩
    · exact .inr ⟨hc, Nat.le_trans hab hbc⟩

theorem placeLe_total (globals : List Global) (a b : Nat) :
    (placeLe globals a b || placeLe globals b a) = true := by
  rw [Bool.or_eq_true, placeLe_iff, placeLe_iff]
  rcases Nat.lt_or_ge a globals.length with ha | ha
  · rcases Nat.lt_or_ge b globals.length with hb | hb
    · have hga := List.getElem?_eq_getElem ha
      have hgb := List.getElem?_eq_getElem hb
      cases hle : globals[a].le globals[b] with
      | true => exact .inl (.inl ⟨_, _, hga, hgb, hle⟩)
      | false => exact .inr (.inl ⟨_, _, hgb, hga, le_of_not_le hle⟩)
    · exact .inl (.inr ⟨hb, by omega⟩)
  · rcases Nat.le_total a b with hab | hab
    · exact .inl (.inr ⟨by omega, hab⟩)
    · exact .inr (.inr ⟨ha, hab⟩)

end Global

/-! ## The tree of an index -/

namespace NamespaceTree

section

variable (globals : List Global) (byKey : Std.ExtTreeMap TypeKey Nat)

/-- Each scope of the index leads to a node, and each node has the places whose
scopes lead there. -/
theorem ofGlobals_places :
    (∀ (key : TypeKey) place, byKey[key]? = some place →
      ∃ id, (ofGlobals globals byKey).get? key.scope = some id) ∧
    ∀ id, ((ofGlobals globals byKey).membersOf id).Perm
      (placesIn (ofGlobals globals byKey) byKey.toList id) := by
  have hperm : (byKey.toList.mergeSort fun a b => a.2 ≤ b.2).Perm byKey.toList :=
    List.mergeSort_perm _ _
  obtain ⟨-, hfound, hmembers⟩ := foldl_addGlobal_adds rooted_empty
    (byKey.toList.mergeSort fun a b => a.2 ≤ b.2)
  constructor
  · intro key place hkey
    have hmem : (key, place) ∈ byKey.toList :=
      Std.ExtTreeMap.mem_toList_iff_getElem?_eq_some.mpr hkey
    exact hfound (key, place) (hperm.mem_iff.mpr hmem)
  · intro id
    have hall := hmembers id
    rw [membersOf_empty, List.nil_append] at hall
    rw [ofGlobals, membersOf_sort, hall]
    exact (List.mergeSort_perm _ _).trans ((hperm.filter _).map Prod.snd)

variable {globals byKey}

theorem mem_membersOf_ofGlobals {id place : Nat} :
    place ∈ (ofGlobals globals byKey).membersOf id ↔
      ∃ key : TypeKey, byKey[key]? = some place ∧
        (ofGlobals globals byKey).get? key.scope = some id := by
  rw [((ofGlobals_places globals byKey).2 id).mem_iff]
  unfold placesIn
  simp only [List.mem_map, List.mem_filter, decide_eq_true_eq, Prod.exists, exists_eq_right,
    Std.ExtTreeMap.mem_toList_iff_getElem?_eq_some]

/-- No member comes twice if no place has two keys. -/
theorem nodup_membersOf_ofGlobals (id : Nat)
    (hone : ∀ {key key' : TypeKey} {place}, byKey[key]? = some place → byKey[key']? = some place →
      key = key') : ((ofGlobals globals byKey).membersOf id).Nodup := by
  rw [((ofGlobals_places globals byKey).2 id).nodup_iff]
  have hplaces : (byKey.toList.map Prod.snd).Nodup := by
    apply List.pairwise_map.mpr
    apply Std.ExtTreeMap.distinct_keys_toList.imp_of_mem
    intro a b ha hb hkeys hplace
    rw [Std.ExtTreeMap.mem_toList_iff_getElem?_eq_some] at ha hb
    rw [hplace] at ha
    exact hkeys (Std.compare_eq_iff_eq.mpr (hone ha hb))
  exact hplaces.sublist (List.filter_sublist.map Prod.snd)

theorem sorted_membersOf_ofGlobals (id : Nat) :
    ((ofGlobals globals byKey).membersOf id).Pairwise fun a b =>
      Global.placeLe globals a b = true := by
  rw [ofGlobals, membersOf_sort]
  exact List.pairwise_mergeSort (Global.placeLe_trans globals) (Global.placeLe_total globals) _

end

end NamespaceTree

/-! ## The globals of a program -/

/-- The globals of a namespace, if all its members are places of globals. -/
theorem Program.map_globalsIn {program : Program} {id : Nat}
    (h : ∀ place ∈ program.namespaces.membersOf id, place < program.globals.length) :
    (program.globalsIn id).map some =
      (program.namespaces.membersOf id).map fun place => program.globals[place]? := by
  have hglobals : program.globalsIn id =
      (program.namespaces.membersOf id).filterMap fun place => program.globals[place]? := by
    unfold globalsIn NamespaceTree.membersOf
    cases program.namespaces.node? id <;> rfl
  rw [hglobals]
  generalize program.namespaces.membersOf id = members at h
  induction members with
  | nil => rfl
  | cons place members ih =>
    have hplace := List.getElem?_eq_getElem (h place List.mem_cons_self)
    have hrest := ih fun other hother => h other (List.mem_cons_of_mem _ hother)
    rw [List.filterMap_cons_some hplace, List.map_cons, List.map_cons, hplace, hrest]

namespace Loader.Placed

variable {loader : Loader} {doc : Export} {program : Program} {symbols : SymbolTable}
  {read : GlobalReading} {entered : RoutineReading}

theorem mem_members (h : Placed loader doc program symbols read entered) {id place : Nat} :
    place ∈ program.namespaces.membersOf id ↔
      ∃ key, LastOf Global.key program.globals key place ∧
        program.namespaces.get? key.scope = some id := by
  rw [h.namespaces, NamespaceTree.mem_membersOf_ofGlobals, h.globalsByKey]
  simp only [Global.getElem?_indexByKey]

/-- The scope of a key that a global has leads to a node. -/
theorem exists_node (h : Placed loader doc program symbols read entered) {key : TypeKey}
    {place : Nat} (hlast : LastOf Global.key program.globals key place) :
    ∃ id, program.namespaces.get? key.scope = some id := by
  rw [h.namespaces]
  apply (NamespaceTree.ofGlobals_places program.globals program.globalsByKey).1 key place
  rw [h.globalsByKey]
  exact Global.getElem?_indexByKey.mpr hlast

theorem nodup_members (h : Placed loader doc program symbols read entered) (id : Nat) :
    (program.namespaces.membersOf id).Nodup := by
  rw [h.namespaces]
  apply NamespaceTree.nodup_membersOf_ofGlobals
  intro key key' place hkey hkey'
  rw [h.globalsByKey, Global.getElem?_indexByKey] at hkey hkey'
  exact Option.some.inj (hkey.keyed.symm.trans hkey'.keyed)

/-- A member is a global that has a name. -/
theorem exists_name (h : Placed loader doc program symbols read entered) {id place : Nat}
    (hmem : place ∈ program.namespaces.membersOf id) :
    ∃ global name, program.globals[place]? = some global ∧ global.name? = some name := by
  obtain ⟨key, hlast, -⟩ := h.mem_members.mp hmem
  obtain ⟨global, hglobal, hkey⟩ := Option.bind_eq_some_iff.mp hlast.keyed
  exact ⟨global, key.name, hglobal, by rw [Global.name?, hkey, Option.map_some]⟩

theorem map_globalsIn (h : Placed loader doc program symbols read entered) (id : Nat) :
    (program.globalsIn id).map some =
      (program.namespaces.membersOf id).map fun place => program.globals[place]? := by
  apply Program.map_globalsIn
  intro place hmem
  obtain ⟨global, -, hglobal, -⟩ := h.exists_name hmem
  exact (List.getElem?_eq_some_iff.mp hglobal).1

theorem sorted_globalsIn (h : Placed loader doc program symbols read entered) (id : Nat) :
    (program.globalsIn id).Pairwise Global.Before := by
  have hmembers : (program.namespaces.membersOf id).Pairwise fun a b =>
      Global.placeLe program.globals a b = true := by
    rw [h.namespaces]
    exact NamespaceTree.sorted_membersOf_ofGlobals id
  have hglobals : ((program.namespaces.membersOf id).map fun place =>
      program.globals[place]?).Pairwise fun a b => ∀ ga ∈ a, ∀ gb ∈ b, ga.Before gb := by
    refine List.pairwise_map.mpr (hmembers.imp_of_mem ?_)
    intro a b ha hb hle ga hga gb hgb
    obtain ⟨ga', m, hga', hm⟩ := h.exists_name ha
    obtain ⟨gb', n, hgb', hn⟩ := h.exists_name hb
    obtain rfl := Option.some.inj (hga'.symm.trans hga)
    obtain rfl := Option.some.inj (hgb'.symm.trans hgb)
    have hle' : ga'.le gb' = true := by
      rw [Global.placeLe, hga', hgb'] at hle
      exact hle
    exact ⟨m, n, hm, hn, (Global.le_iff hm hn).mp hle'⟩
  rw [← h.map_globalsIn id, List.pairwise_map] at hglobals
  exact hglobals.imp fun hbefore => hbefore _ rfl _ rfl

end Loader.Placed

/-- In a loaded program the last global of each key is a member of the node
that the scope of the key leads to, once, and of no other node. The nodes have
no other members: no global without a key, and none that shares its key with a
later one. The globals of a node stand in the order of their names, and those
of one name in the order of their addresses. -/
theorem namespaces_hold_the_last_global_of_each_key {loader : Loader} {doc : Export}
    {trace : Option (List UInt8)} {program : Program} (h : loader.load doc trace = .ok program) :
    (∀ key place, LastOf Global.key program.globals key place →
      ∃ id, program.namespaces.get? key.scope = some id ∧
        program.namespaces.getOrAdd key.scope = (id, program.namespaces) ∧
        (program.namespaces.membersOf id).count place = 1 ∧
        ∀ other, other ≠ id → place ∉ program.namespaces.membersOf other) ∧
    (∀ id place, place ∈ program.namespaces.membersOf id →
      ∃ key, LastOf Global.key program.globals key place) ∧
    ∀ id, (program.globalsIn id).map some =
        (program.namespaces.membersOf id).map (fun place => program.globals[place]?) ∧
      (program.globalsIn id).Pairwise Global.Before := by
  obtain ⟨symbols, read, entered, hplaced⟩ := Loader.load_placed h
  refine ⟨?_, ?_, fun id => ⟨hplaced.map_globalsIn id, hplaced.sorted_globalsIn id⟩⟩
  · intro key place hlast
    obtain ⟨id, hid⟩ := hplaced.exists_node hlast
    have hmem := hplaced.mem_members.mpr ⟨key, hlast, hid⟩
    refine ⟨id, hid, NamespaceTree.getOrAdd_of_get? hid,
      List.count_eq_one_of_mem (hplaced.nodup_members id) hmem, ?_⟩
    intro other hother hmem'
    obtain ⟨key', hlast', hid'⟩ := hplaced.mem_members.mp hmem'
    obtain rfl := Option.some.inj (hlast.keyed.symm.trans hlast'.keyed)
    exact hother (Option.some.inj (hid'.symm.trans hid))
  · intro id place hmem
    obtain ⟨key, hlast, -⟩ := hplaced.mem_members.mp hmem
    exact ⟨key, hlast⟩

/-- Of two globals with one key the first is a member of no namespace. -/
theorem the_first_twin_is_in_no_namespace : ∃ program place global,
    Loader.load {} twins none = .ok program ∧ program.globals[place]? = some global ∧
      global.address = 0x401000 ∧ global.key = some (.root "twin") ∧
      ∀ id, place ∉ program.namespaces.membersOf id := by
  obtain ⟨program, symbols, read, entered, hload, hplaced, hentries, -⟩ := exists_load_twins
  obtain ⟨first, hfirst, hfirstEntry⟩ :=
    List.mem_map.mp (hentries.mem_iff.mpr (List.mem_cons_of_mem _ List.mem_cons_self))
  obtain ⟨second, hsecond, hsecondEntry⟩ :=
    List.mem_map.mp (hentries.mem_iff.mpr List.mem_cons_self)
  obtain ⟨haddress, hkey⟩ := Prod.mk.inj hfirstEntry
  obtain ⟨haddress', hkey'⟩ := Prod.mk.inj hsecondEntry
  obtain ⟨place, hplace⟩ := List.mem_iff_getElem?.mp hfirst
  refine ⟨program, place, first, hload, hplace, haddress, hkey, ?_⟩
  intro id hmem
  obtain ⟨key, hlast, -⟩ := hplaced.mem_members.mp hmem
  have hkeyed := hlast.keyed
  rw [hplace, Option.bind_some, hkey] at hkeyed
  obtain rfl := Option.some.inj hkeyed
  have hle := hplaced.address_le_last hlast hplace hsecond hkey'
  rw [haddress, haddress'] at hle
  exact absurd hle (by decide)

/-- The last of the two is a member of the root, and of it alone. -/
theorem the_second_twin_is_in_one_namespace : ∃ program place id,
    Loader.load {} twins none = .ok program ∧
      LastOf Global.key program.globals (.root "twin") place ∧
      program.namespaces.get? "" = some id ∧
      (program.namespaces.membersOf id).count place = 1 ∧
      ∀ other, other ≠ id → place ∉ program.namespaces.membersOf other := by
  obtain ⟨program, symbols, read, entered, hload, -, hentries, -⟩ := exists_load_twins
  obtain ⟨second, hsecond, hentry⟩ := List.mem_map.mp (hentries.mem_iff.mpr List.mem_cons_self)
  obtain ⟨place, hlast⟩ := exists_lastOf hsecond (Prod.mk.inj hentry).2
  obtain ⟨id, hid, -, hcount, hother⟩ :=
    (namespaces_hold_the_last_global_of_each_key hload).1 (.root "twin") place hlast
  exact ⟨program, place, id, hload, hlast, hid, hcount, hother⟩

end BinaryAtlas
