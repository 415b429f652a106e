-- The laws of places in a loaded program. Of the items that share a key the
-- last one is found by it. Functions keep their keys and entries while calls
-- are noted, and globals keep all but their types while types are resolved.
import BinaryAtlas.Proofs.CallGraph
import BinaryAtlas.Proofs.CallOrder
import BinaryAtlas.Proofs.LoadedTypes
import Mathlib.Data.List.Induction

namespace BinaryAtlas

/-! ## Places by keys -/

section

variable {Item : Type} {keyOf : Item → Option TypeKey} {items : List Item} {key : TypeKey}
  {place : Nat}

/-- The place is that of the last item of the key. -/
structure LastOf (keyOf : Item → Option TypeKey) (items : List Item) (key : TypeKey)
    (place : Nat) : Prop where
  keyed : items[place]?.bind keyOf = some key
  last : ∀ later, place < later → items[later]?.bind keyOf ≠ some key

theorem LastOf.lt (h : LastOf keyOf items key place) : place < items.length := by
  obtain ⟨item, hitem, -⟩ := Option.bind_eq_some_iff.mp h.keyed
  exact (List.getElem?_eq_some_iff.mp hitem).1

/-- Only the places of the key count. -/
theorem lastOf_congr {items' : List Item}
    (h : ∀ place : Nat, items[place]?.bind keyOf = some key ↔
      items'[place]?.bind keyOf = some key) :
    LastOf keyOf items key place ↔ LastOf keyOf items' key place := by
  constructor
  · intro hl
    exact ⟨(h place).mp hl.keyed, fun later hlt => mt (h later).mpr (hl.last later hlt)⟩
  · intro hl
    exact ⟨(h place).mpr hl.keyed, fun later hlt => mt (h later).mp (hl.last later hlt)⟩

theorem lastOf_append (item : Item) :
    LastOf keyOf (items ++ [item]) key place ↔
      if keyOf item = some key then place = items.length else LastOf keyOf items key place := by
  have hend : (items ++ [item])[items.length]? = some item := List.getElem?_concat_length
  have hout {other : Nat} (h : items.length < other) : (items ++ [item])[other]? = none := by
    rw [List.getElem?_eq_none]
    simp only [List.length_append, List.length_singleton]
    omega
  split
  · rename_i hkey
    constructor
    · intro h
      have hlt := h.lt
      rw [List.length_append, List.length_singleton] at hlt
      by_contra hne
      apply h.last items.length (by omega)
      rw [hend, Option.bind_some, hkey]
    · rintro rfl
      refine ⟨by rw [hend, Option.bind_some, hkey], fun later hlater => ?_⟩
      rw [hout hlater]
      nofun
  · rename_i hkey
    have hsame {other : Nat} (h : other ≠ items.length) :
        (items ++ [item])[other]? = items[other]? := by
      rcases Nat.lt_or_gt_of_ne h with hlt | hgt
      · exact List.getElem?_append_left hlt
      · rw [hout hgt, List.getElem?_eq_none (Nat.le_of_lt hgt)]
    apply lastOf_congr
    intro other
    by_cases hat : other = items.length
    · rw [hat, hend, Option.bind_some, List.getElem?_eq_none (Nat.le_refl _)]
      simp [hkey]
    · rw [hsame hat]

/-- A key that an item has belongs to a last item. -/
theorem exists_lastOf {item : Item} (hitem : item ∈ items) (hkey : keyOf item = some key) :
    ∃ place, LastOf keyOf items key place := by
  induction items using List.reverseRecOn with
  | nil => cases hitem
  | append_singleton items last ih =>
    by_cases hlast : keyOf last = some key
    · exact ⟨items.length, (lastOf_append last).mpr (by rw [if_pos hlast])⟩
    · have hmem : item ∈ items := by
        rcases List.mem_append.mp hitem with hmem | hmem
        · exact hmem
        · exact absurd (List.mem_singleton.mp hmem ▸ hkey) hlast
      obtain ⟨place, hplace⟩ := ih hmem
      exact ⟨place, (lastOf_append last).mpr (by rwa [if_neg hlast])⟩

/-- An index that notes each item with its place finds the last item of a key. -/
theorem getElem?_foldl_note
    {note : Std.ExtTreeMap TypeKey Nat → Item × Nat → Std.ExtTreeMap TypeKey Nat}
    (hnote : ∀ byKey item place key, (note byKey (item, place))[key]? =
      if keyOf item = some key then some place else byKey[key]?) :
    (items.zipIdx.foldl note ∅)[key]? = some place ↔ LastOf keyOf items key place := by
  induction items using List.reverseRecOn with
  | nil =>
    constructor
    · intro h
      simp at h
    · intro h
      cases h.lt
  | append_singleton items item ih =>
    rw [lastOf_append, List.zipIdx_append, List.foldl_append]
    simp only [List.zipIdx_singleton, List.foldl_cons, List.foldl_nil, hnote, Nat.zero_add]
    split
    · rw [Option.some.injEq, eq_comm]
    · exact ih

end

theorem Global.getElem?_indexByKey {globals : List Global} {key : TypeKey} {place : Nat} :
    (indexByKey globals)[key]? = some place ↔ LastOf Global.key globals key place := by
  apply getElem?_foldl_note
  intro byKey item place key
  unfold noteKey
  cases hkey : item.key with
  | none => simp
  | some own => simp [Std.ExtTreeMap.getElem?_insert]

theorem Routine.getElem?_indexByKey {routines : List Routine} {key : TypeKey} {place : Nat} :
    (indexByKey routines)[key]? = some place ↔
      LastOf (fun routine => some routine.key) routines key place := by
  apply getElem?_foldl_note
  intro byKey item place key
  simp [Std.ExtTreeMap.getElem?_insert]

/-! ## Functions under calls -/

namespace Routine

/-- The key of a function and its entry. -/
def entry (routine : Routine) : TypeKey × UInt32 := (routine.key, routine.address)

/-- Functions that get their places keep every mark that looks at neither those nor at
whether they are ignored. -/
theorem map_place_of_keeps {Mark : Type} {mark : Routine → Mark}
    (h : ∀ routine index ignored, mark { routine with index, ignored } = mark routine)
    (filter : Option (String → Bool)) (routines : List Routine) :
    (place filter routines).map mark = routines.map mark := by
  have hfirst : routines.map mark = (routines.zipIdx.map Prod.fst).map mark := by
    rw [List.zipIdx_map_fst]
  rw [hfirst, place, List.map_map, List.map_map]
  exact List.map_congr_left fun entry _ => h entry.1 _ _

theorem map_entry_place (filter : Option (String → Bool)) (routines : List Routine) :
    (place filter routines).map entry = routines.map entry :=
  map_place_of_keeps (fun _ _ _ => rfl) filter routines

/-- Functions with the same keys in the same order have the same index. -/
theorem indexByKey_congr {routines routines' : List Routine}
    (h : routines.map key = routines'.map key) : indexByKey routines = indexByKey routines' := by
  have hkeys (place : Nat) : routines[place]?.bind (fun routine => some routine.key) =
      routines'[place]?.bind fun routine => some routine.key := by
    have hplace := congrArg (fun keys => keys[place]?) h
    simp only [List.getElem?_map, Option.map_eq_bind] at hplace
    exact hplace
  apply Std.ExtTreeMap.ext_getElem?
  intro key
  apply Option.ext
  intro place
  rw [getElem?_indexByKey, getElem?_indexByKey]
  exact lastOf_congr fun place => by rw [hkeys place]

end Routine

/-- Calls leave every mark of a function alone that does not look at its edges. -/
theorem CallGraph.map_populate_of_keeps {Mark : Type} {mark : Routine → Mark}
    (hcallees : ∀ routine places, mark { routine with callees := places } = mark routine)
    (hcallers : ∀ routine places, mark { routine with callers := places } = mark routine)
    (routines : List Routine) (byKey : RoutineIndex) (calls : List CallRecord)
    (targets : CallTargets) :
    (populate routines byKey calls targets).routines.map mark = routines.map mark := by
  rw [populate_eq]
  generalize (List.map _ _ : List (Nat × CallVerdict)) = met
  suffices hall : ∀ graph : CallGraph,
      (met.foldl (fun graph entry => graph.note entry.1 entry.2) graph).routines.map mark =
        graph.routines.map mark from hall _
  induction met with
  | nil => exact fun _ => rfl
  | cons entry met ih =>
    intro graph
    exact (ih _).trans (map_note_of_keeps hcallees hcallers graph _ _)

theorem Loader.map_connect_of_keeps {Mark : Type} {mark : Routine → Mark}
    (hcallees : ∀ routine places, mark { routine with callees := places } = mark routine)
    (hcallers : ∀ routine places, mark { routine with callers := places } = mark routine)
    (loader : Loader) (routines : List Routine) (trace : Option (List UInt8)) :
    (loader.connect routines trace).1.map mark = routines.map mark := by
  cases trace with
  | none => rfl
  | some bytes => exact CallGraph.map_populate_of_keeps hcallees hcallers routines _ _ _

/-- Calls change neither the keys of functions nor their entries. -/
theorem Loader.map_entry_connect (loader : Loader) (routines : List Routine)
    (trace : Option (List UInt8)) :
    (loader.connect routines trace).1.map Routine.entry = routines.map Routine.entry :=
  loader.map_connect_of_keeps (fun _ _ => rfl) (fun _ _ => rfl) routines trace

/-! ## The places of a loaded program -/

theorem values_eq_map_toList (symbols : SymbolTable) :
    symbols.values = symbols.toList.map Prod.snd := by
  have hfold : symbols.values = symbols.foldr (fun _ symbol values => symbol :: values) [] := by
    rcases symbols with ⟨⟨symbols⟩⟩
    induction symbols using Quotient.inductionOn
    rfl
  rw [hfold, Std.ExtTreeMap.foldr_eq_foldr_toList]
  induction symbols.toList with
  | nil => rfl
  | cons entry entries ih => rw [List.foldr_cons, ih, List.map_cons]

/-- The address of a global and its key. -/
def Global.entry (global : Global) : UInt32 × Option TypeKey := (global.address, global.key)

/-- The readings behind the places of a program. Globals and functions are the ones that
have been read, though in another order. -/
structure Loader.Placed (loader : Loader) (doc : Export) (program : Program)
    (symbols : SymbolTable) (read : GlobalReading) (entered : RoutineReading) : Prop where
  named : SymbolTable.ofExport loader.config doc = .ok symbols
  found : ∃ declared, Declaration.addAll (.withBuiltins loader.config.pointerSize) doc =
    .ok declared ∧ GlobalReading.ofExport declared symbols doc = .ok read
  called : RoutineReading.ofExport read.symbols doc = .ok entered
  symbols : program.symbols = entered.symbols.values
  globals : (program.globals.map Global.entry).Perm (read.globals.map Global.entry)
  ordered : program.globals.Pairwise fun a b => a.address ≤ b.address
  globalsByKey : program.globalsByKey = Global.indexByKey program.globals
  namespaces : program.namespaces = .ofGlobals program.globals program.globalsByKey
  routines : (program.routines.map Routine.entry).Perm (entered.routines.map Routine.entry)
  routinesByKey : program.routinesByKey = Routine.indexByKey program.routines

theorem GlobalReading.sorted_perm (read : GlobalReading) : read.sorted.Perm read.globals :=
  (List.mergeSort_perm _ _).trans (List.reverse_perm _)

theorem RoutineReading.sorted_perm (entered : RoutineReading) :
    entered.sorted.Perm entered.routines :=
  (List.mergeSort_perm _ _).trans (List.reverse_perm _)

theorem GlobalReading.pairwise_sorted (read : GlobalReading) :
    read.sorted.Pairwise fun a b => a.address ≤ b.address :=
  pairwise_mergeSort_address Global.address read.globals.reverse

namespace Loader

theorem Stages.places {loader : Loader} {doc : Export} {trace : Option (List UInt8)}
    {program : Program} {declared : TypeStore} {symbols : SymbolTable} {read : GlobalReading}
    {entered : RoutineReading}
    (h : Stages loader doc trace program declared symbols read entered) :
    Placed loader doc program symbols read entered := by
  have hentries := loader.map_entry_connect (Routine.place loader.filter entered.sorted) trace
  rw [← h.routines] at hentries
  refine ⟨h.named, ⟨declared, h.declares, h.found⟩, h.called, h.symbols, ?_, ?_, h.globalsByKey,
    h.namespaces, ?_, ?_⟩
  · rw [h.globals, List.map_map]
    exact read.sorted_perm.map _
  · rw [h.globals]
    exact List.pairwise_map.mpr read.pairwise_sorted
  · rw [hentries, Routine.map_entry_place]
    exact entered.sorted_perm.map _
  · have hkeys := congrArg (List.map Prod.fst) hentries
    simp only [List.map_map] at hkeys
    rw [h.routinesByKey]
    exact (Routine.indexByKey_congr hkeys).symm

/-- A program that has been loaded has all its places from readings of the export. -/
theorem load_placed {loader : Loader} {doc : Export} {trace : Option (List UInt8)}
    {program : Program} (h : loader.load doc trace = .ok program) :
    ∃ symbols read entered, Placed loader doc program symbols read entered := by
  obtain ⟨declared, symbols, read, entered, hstages⟩ := load_stages h
  exact ⟨symbols, read, entered, hstages.places⟩

/-- No global of a key stands at a higher address than the last one. -/
theorem Placed.address_le_last {loader : Loader} {doc : Export} {program : Program}
    {symbols : SymbolTable} {read : GlobalReading} {entered : RoutineReading}
    (h : Placed loader doc program symbols read entered) {key : TypeKey} {place : Nat}
    {last other : Global} (hlast : LastOf Global.key program.globals key place)
    (hplace : program.globals[place]? = some last) (hother : other ∈ program.globals)
    (hkey : other.key = some key) : other.address ≤ last.address := by
  obtain ⟨place', hplace'⟩ := List.mem_iff_getElem?.mp hother
  obtain ⟨hlt, rfl⟩ := List.getElem?_eq_some_iff.mp hplace
  obtain ⟨hlt', rfl⟩ := List.getElem?_eq_some_iff.mp hplace'
  rcases Nat.lt_trichotomy place' place with hbefore | rfl | hafter
  · exact List.pairwise_iff_getElem.mp h.ordered place' place hlt' hlt hbefore
  · exact UInt32.le_refl _
  · exact absurd (by rw [hplace', Option.bind_some, hkey]) (hlast.last place' hafter)

end Loader

/-! ## Two globals of one key -/

def symbolAt (address name : String) : Record :=
  Record.withAttribute (.withAttribute { kind := .symbol } "ADDRESS" address) "NAME" name

def intAt (address : String) : Record :=
  Record.withAttribute (.withAttribute (.withAttribute { kind := .definedData } "ADDRESS" address)
    "DATATYPE" "int") "SIZE" "0x4"

/-- Two data items, and a symbol of the same name for each. -/
def twins : Export :=
  { records := [symbolAt "00401000" "twin", symbolAt "00401004" "twin", intAt "00401000",
      intAt "00401004"] }

def twinEntries : List (UInt32 × Option TypeKey) :=
  [(0x401004, some (.root "twin")), (0x401000, some (.root "twin"))]

/-- The symbol of either of the two. -/
def twinSymbol (address : UInt32) : Symbol :=
  { address, key := .root "twin", context := some (.global (.root "twin")) }

theorem exists_load_twins : ∃ program symbols read entered,
    Loader.load {} twins none = .ok program ∧
      Loader.Placed {} twins program symbols read entered ∧
      (program.globals.map Global.entry).Perm twinEntries ∧
      program.symbols = [twinSymbol 0x401000, twinSymbol 0x401004] := by
  obtain ⟨program, h⟩ := exists_ok (x := Loader.load {} twins none) (by decide +kernel)
  have hall : (do
      let declared ← Declaration.addAll (.withBuiltins 4) twins
      let symbols ← SymbolTable.ofExport {} twins
      let read ← GlobalReading.ofExport declared symbols twins
      let entered ← RoutineReading.ofExport read.symbols twins
      .ok (read.globals.map Global.entry, entered.symbols.values) : Except Fault _).toOption =
      some (twinEntries, [twinSymbol 0x401000, twinSymbol 0x401004]) := by
    decide +kernel
  obtain ⟨symbols, read, entered, hplaced⟩ := Loader.load_placed h
  obtain ⟨declared, hdeclared, hread⟩ := hplaced.found
  have hnamed : SymbolTable.ofExport {} twins = .ok symbols := hplaced.named
  have hdeclared : Declaration.addAll (.withBuiltins 4) twins = .ok declared := hdeclared
  rw [hdeclared, hnamed] at hall
  simp only [bind, Except.bind, hread, hplaced.called] at hall
  obtain ⟨hglobals, hsymbols⟩ := Prod.mk.inj (Option.some.inj hall)
  refine ⟨program, symbols, read, entered, h, hplaced, ?_, hplaced.symbols.trans hsymbols⟩
  rw [← hglobals]
  exact hplaced.globals

end BinaryAtlas
