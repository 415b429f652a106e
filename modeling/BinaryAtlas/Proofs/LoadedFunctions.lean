-- The laws of the functions of a loaded program. They are read in the order of
-- the export, put into the order of their entries, and get their places then; so
-- the records still tell each of them, and its place and its key find it.
import BinaryAtlas.Proofs.LoadedSymbols

namespace BinaryAtlas

/-! ## Functions and their records -/

/-- What a record tells of its function. -/
def Routine.told (routine : Routine) : TypeKey × UInt32 × List Region :=
  (routine.key, routine.address, routine.regions)

/-- A function is told by its record as long as nothing else of it changes. -/
theorem RoutineReading.readFrom_congr {records : List Record} {routines routines' : List Routine}
    (h : List.Forall₂ ReadFrom records routines)
    (htold : routines'.map Routine.told = routines.map Routine.told) :
    List.Forall₂ ReadFrom records routines' := by
  induction h generalizing routines' with
  | nil =>
    obtain rfl := List.map_eq_nil_iff.mp htold
    exact .nil
  | @cons record routine _ _ hone _ ih =>
    cases routines' with
    | nil => cases htold
    | cons routine' routines' =>
      obtain ⟨hfirst, hrest⟩ := List.cons_eq_cons.mp htold
      obtain ⟨hkey, haddress, hregions⟩ : routine'.key = routine.key ∧
          routine'.address = routine.address ∧ routine'.regions = routine.regions := by
        simpa [Routine.told] using hfirst
      refine .cons ⟨hkey.trans hone.key, ?_, hregions.trans hone.regions⟩ (ih hrest)
      rw [haddress, hone.entry]

/-- What the functions of a program are. -/
structure Loader.Functions (loader : Loader) (doc : Export) (program : Program) : Prop where
  ascending : program.routines.Pairwise fun a b => a.address ≤ b.address
  /-- At each address stand the functions of the records that count and are entered there,
  in the order of the records. -/
  recorded : ∀ address, List.Forall₂ RoutineReading.ReadFrom
    (doc.functions.filter (·.entryPoint? == some address))
    (program.routines.filter (·.address == address))
  placed : ∀ (place : Nat) (routine : Routine),
    program.routines[place]? = some routine → routine.index = place
  distinct : (program.routines.map Routine.key).Nodup
  found : ∀ key routine, program.routineOf? key = some routine ↔
    routine ∈ program.routines ∧ routine.key = key
  ignored : ∀ routine ∈ program.routines, routine.ignored = true ↔
    ∃ keeps, loader.filter = some keeps ∧ keeps routine.name = false
  /-- The symbol at each entry belongs to a function that is entered there. -/
  owned : ∀ routine ∈ program.routines, ∃ symbol ∈ program.symbols,
    symbol.address = routine.address ∧ ∃ owner ∈ program.routines,
      owner.address = routine.address ∧ symbol.context = some (.function owner.key)

/-! ## Places -/

namespace Loader.Stages

variable {loader : Loader} {doc : Export} {trace : Option (List UInt8)} {program : Program}
  {declared : TypeStore} {symbols : SymbolTable} {read : GlobalReading} {entered : RoutineReading}

/-- A function of the program has its place, and the filter decides whether it is ignored. -/
theorem index_and_ignored
    (h : Stages loader doc trace program declared symbols read entered) {place : Nat}
    {routine : Routine} (hplace : program.routines[place]? = some routine) :
    routine.index = place ∧ routine.ignored = match loader.filter with
      | some keeps => !keeps routine.name
      | none => false := by
  let mark (routine : Routine) := (routine.key, routine.index, routine.ignored)
  have hmarks : program.routines.map mark =
      (Routine.place loader.filter entered.sorted).map mark := by
    rw [h.routines]
    exact loader.map_connect_of_keeps (fun _ _ => rfl) (fun _ _ => rfl) _ trace
  have hmark : (program.routines.map mark)[place]? = some (mark routine) := by
    rw [List.getElem?_map, hplace, Option.map_some]
  rw [hmarks, Routine.place, List.map_map, List.getElem?_map, Option.map_eq_some_iff] at hmark
  obtain ⟨⟨old, index⟩, hold, hmark⟩ := hmark
  rw [List.getElem?_zipIdx, Option.map_eq_some_iff] at hold
  obtain ⟨_, -, hold⟩ := hold
  obtain ⟨rfl, rfl⟩ := Prod.mk.inj hold
  simp only [mark, Function.comp_apply, Prod.mk.injEq] at hmark
  obtain ⟨hkey, hindex, hignored⟩ := hmark
  rw [← hindex, ← hignored, Nat.zero_add, Routine.name, Routine.name, hkey]
  exact ⟨rfl, rfl⟩

theorem map_told (h : Stages loader doc trace program declared symbols read entered) :
    program.routines.map Routine.told = entered.sorted.map Routine.told := by
  rw [h.routines, loader.map_connect_of_keeps (fun _ _ => rfl) (fun _ _ => rfl),
    Routine.map_place_of_keeps fun _ _ _ => rfl]

theorem pairwise_routines (h : Stages loader doc trace program declared symbols read entered) :
    program.routines.Pairwise fun a b => a.address ≤ b.address := by
  have hsorted := pairwise_mergeSort_address Routine.address entered.routines.reverse
  have haddresses := congrArg (List.map fun told => told.2.1) h.map_told
  rw [List.map_map, List.map_map] at haddresses
  rw [← List.pairwise_map (f := Routine.address) (R := (· ≤ ·))] at hsorted ⊢
  exact haddresses ▸ hsorted

/-- At each address the functions stand in the order of their records. -/
theorem readFrom_routines (h : Stages loader doc trace program declared symbols read entered)
    (address : UInt32) :
    List.Forall₂ RoutineReading.ReadFrom (doc.functions.filter (·.entryPoint? == some address))
      (program.routines.filter (·.address == address)) := by
  have hread := (RoutineReading.reads_ofExport h.called).read
  have hat := List.rel_filter (p := fun record : Record => record.entryPoint? == some address)
    (q := fun routine : Routine => routine.address == address)
    (fun record routine hone => by simp [hone.entry]) hread
  apply RoutineReading.readFrom_congr hat
  have htold (routines : List Routine) :
      (routines.filter (·.address == address)).map Routine.told =
        (routines.map Routine.told).filter (·.2.1 == address) := by
    rw [List.filter_map]
    rfl
  rw [htold, h.map_told, ← htold, RoutineReading.sorted,
    filter_mergeSort_address Routine.address]

end Loader.Stages

/-! ## Keys and symbols -/

namespace Loader.Placed

variable {loader : Loader} {doc : Export} {program : Program} {symbols : SymbolTable}
  {read : GlobalReading} {entered : RoutineReading}

theorem routineOf?_eq_some_iff (h : Placed loader doc program symbols read entered)
    {key : TypeKey} {routine : Routine} :
    program.routineOf? key = some routine ↔ routine ∈ program.routines ∧ routine.key = key := by
  constructor
  · intro hfound
    obtain ⟨place, hplace, hroutine⟩ := Option.bind_eq_some_iff.mp hfound
    rw [h.routinesByKey, Routine.getElem?_indexByKey] at hplace
    have hkeyed := hplace.keyed
    rw [hroutine, Option.bind_some, Option.some.injEq] at hkeyed
    exact ⟨List.mem_of_getElem? hroutine, hkeyed⟩
  · rintro ⟨hmem, rfl⟩
    exact h.routineOf?_key hmem

/-- The last function that is entered at an address has the symbol there. -/
theorem exists_symbol (h : Placed loader doc program symbols read entered) {address : UInt32}
    {last : Record}
    (hlast : (doc.functions.filter (·.entryPoint? == some address)).getLast? = some last) :
    ∃ symbol ∈ program.symbols, symbol.address = address ∧
      symbol.context = some (.function last.key) := by
  have hsymbol : ∃ symbol, doc.symbolAt? loader.config address = some symbol ∧
      symbol.address = address ∧ symbol.context = some (.function last.key) := by
    unfold Export.symbolAt?
    generalize List.filter _ (doc.recordsOf .symbol) = names
    generalize List.filter _ doc.functions = entries at hlast
    cases entries with
    | nil => cases hlast
    | cons first entries => cases names.getLast? <;> simp [hlast]
  obtain ⟨symbol, htold, rfl, hcontext⟩ := hsymbol
  exact ⟨symbol, h.mem_symbols.mpr htold, rfl, hcontext⟩

end Loader.Placed

/-- The functions of a loaded program come from the records with a real entry that are the
first ones of their keys. They ascend, and at one address they keep the order of the
records; each one's place is its index, and its key finds it and nothing else. -/
theorem functions_are_told_by_their_records {loader : Loader} {doc : Export}
    {trace : Option (List UInt8)} {program : Program} (h : loader.load doc trace = .ok program) :
    loader.Functions doc program := by
  obtain ⟨declared, symbols, read, entered, hstages⟩ := Loader.load_stages h
  have hplaced := hstages.places
  refine ⟨hstages.pairwise_routines, hstages.readFrom_routines,
    fun place routine hplace => (hstages.index_and_ignored hplace).1,
    hplaced.routine_keys_nodup, fun key routine => hplaced.routineOf?_eq_some_iff, ?_, ?_⟩
  · intro routine hmem
    obtain ⟨place, hplace⟩ := List.mem_iff_getElem?.mp hmem
    rw [(hstages.index_and_ignored hplace).2]
    cases loader.filter <;> simp
  · intro routine hmem
    have hread := hstages.readFrom_routines routine.address
    have hhere : routine ∈ program.routines.filter (·.address == routine.address) :=
      List.mem_filter.mpr ⟨hmem, beq_self_eq_true _⟩
    obtain ⟨record, hrecord, -⟩ := exists_of_forall₂ hread hhere
    have hlast := List.getLast?_eq_some_getLast (List.ne_nil_of_mem hrecord)
    obtain ⟨symbol, hsymbol, haddress, hcontext⟩ := hplaced.exists_symbol hlast
    obtain ⟨owner, howner, hone⟩ := exists_of_forall₂ hread.flip (List.mem_of_getLast? hlast)
    obtain ⟨hmem, hentry⟩ := List.mem_filter.mp howner
    refine ⟨symbol, hsymbol, haddress, owner, hmem, beq_iff_eq.mp hentry, ?_⟩
    rw [hcontext, hone.key]

def addressRange (start stop : String) : Record :=
  Record.withAttribute (.withAttribute { kind := .addressRange } "START" start) "END" stop

/-- Of these functions one has no real entry, and one has a key that is there already. -/
def mixedFunctions : Export :=
  { records := [
      (functionAt "00402000" "" "late").withChild (addressRange "00402000" "0040200f")
        |>.withChild (addressRange "EXTERNAL:1" "0040201f"),
      functionAt "EXTERNAL:2" "" "outside", functionAt "00401000" "lib" "run",
      functionAt "00401000" "" "again", functionAt "00401004" "lib" "run"] }

/-- A loader that counts all functions but one. -/
def exceptAgain : Loader := { filter := some fun name => name != "again" }

theorem two_functions_of_one_entry_keep_their_order : ∃ program,
    exceptAgain.load mixedFunctions none = .ok program ∧
    exceptAgain.Functions mixedFunctions program ∧
    (program.routines.filter (·.address == 0x401000)).map Routine.key =
      [.of "lib" "run", .root "again"] := by
  obtain ⟨program, h⟩ := exists_ok (x := exceptAgain.load mixedFunctions none) (by decide +kernel)
  have hmain := functions_are_told_by_their_records h
  refine ⟨program, h, hmain, ?_⟩
  rw [← RoutineReading.keys_of_readFrom (hmain.recorded 0x401000)]
  decide +kernel

end BinaryAtlas
