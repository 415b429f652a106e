-- The laws of the owners of symbols. A symbol names what it belongs to by a
-- key, and what has that key has been read at the symbol's own address. No two
-- functions share a key, so a function is found again by its key. Globals may
-- share one, and then only the last of them is found.
import BinaryAtlas.Proofs.LoadedPlaces
import BinaryAtlas.Proofs.PlaceRecords

namespace BinaryAtlas

/-- Where the owner of a symbol stands: the entry of a function, or the address of a
global. -/
def SymbolOwner.address : SymbolOwner → UInt32
  | .function routine => routine.address
  | .global datum => datum.address

/-! ## Owned symbols -/

/-- A symbol belongs to nothing, or to something that stands at its own address. -/
inductive Owned (globals : List Global) (routines : List Routine) (symbol : Symbol) : Prop
  | nothing (context : symbol.context = none)
  | function (routine : Routine) (mem : routine ∈ routines)
      (address : routine.address = symbol.address)
      (context : symbol.context = some (.function routine.key))
  | global (global : Global) (mem : global ∈ globals) (key : TypeKey)
      (keyed : global.key = some key) (address : global.address = symbol.address)
      (context : symbol.context = some (.global key))

/-- Each symbol of the table stands at its own address, and what it belongs to as well. -/
def OwnedTable (globals : List Global) (routines : List Routine) (symbols : SymbolTable) : Prop :=
  ∀ address symbol, symbols[address]? = some symbol →
    symbol.address = address ∧ Owned globals routines symbol

section

variable {globals globals' : List Global} {routines routines' : List Routine}

/-- What matters of globals are their addresses and keys, and of functions their keys and
entries. -/
theorem Owned.mono {symbol : Symbol} (h : Owned globals routines symbol)
    (hglobals : ∀ global ∈ globals, ∃ global' ∈ globals', global'.entry = global.entry)
    (hroutines : ∀ routine ∈ routines, ∃ routine' ∈ routines', routine'.entry = routine.entry) :
    Owned globals' routines' symbol := by
  cases h with
  | nothing context => exact .nothing context
  | function routine mem address context =>
    obtain ⟨routine', hmem, hentry⟩ := hroutines routine mem
    obtain ⟨hkey, haddress⟩ := Prod.mk.inj hentry
    exact .function routine' hmem (haddress.trans address) (by rw [hkey, context])
  | global global mem key keyed address context =>
    obtain ⟨global', hmem, hentry⟩ := hglobals global mem
    obtain ⟨haddress, hkey⟩ := Prod.mk.inj hentry
    exact .global global' hmem key (hkey.trans keyed) (haddress.trans address) context

theorem OwnedTable.mono {symbols : SymbolTable} (h : OwnedTable globals routines symbols)
    (hglobals : ∀ global ∈ globals, global ∈ globals')
    (hroutines : ∀ routine ∈ routines, routine ∈ routines') :
    OwnedTable globals' routines' symbols := by
  intro address symbol hsymbol
  obtain ⟨haddress, howned⟩ := h address symbol hsymbol
  exact ⟨haddress, howned.mono (fun global hg => ⟨global, hglobals global hg, rfl⟩)
    fun routine hr => ⟨routine, hroutines routine hr, rfl⟩⟩

theorem OwnedTable.insert {symbols : SymbolTable} (h : OwnedTable globals routines symbols)
    {symbol : Symbol} (howned : Owned globals routines symbol) :
    OwnedTable globals routines (symbols.insert symbol.address symbol) := by
  intro address other hother
  rw [Std.ExtTreeMap.getElem?_insert] at hother
  split at hother
  · rename_i haddress
    obtain rfl := Option.some.inj hother
    exact ⟨Std.compare_eq_iff_eq.mp haddress, howned⟩
  · exact h address other hother

end

/-! ## Reading -/

theorem SymbolTable.addRecord_owned {config : LoadConfig} {symbols symbols' : SymbolTable}
    {record : Record} (h : OwnedTable [] [] symbols)
    (hadd : addRecord config symbols record = .ok symbols') : OwnedTable [] [] symbols' := by
  rcases addRecord_cases hadd with ⟨-, rfl⟩ | ⟨address, -, rfl⟩
  · exact h
  · have hnew : Owned [] [] { address, key := record.key } := .nothing rfl
    exact h.insert hnew

theorem GlobalReading.addRecord_owned {r r' : GlobalReading} {record : Record}
    (h : OwnedTable r.globals [] r.symbols) (hadd : r.addRecord record = .ok r') :
    OwnedTable r'.globals [] r'.symbols := by
  have hmore (global : Global) : OwnedTable (global :: r.globals) [] r.symbols :=
    h.mono (fun _ => List.mem_cons_of_mem _) fun _ => id
  rcases addRecord_cases hadd with
    ⟨-, rfl⟩ | ⟨address, size, -, -, ⟨-, rfl⟩ | ⟨symbol, hsymbol, rfl⟩⟩
  · exact h
  · exact hmore _
  · obtain ⟨rfl, -⟩ := h address symbol hsymbol
    have hnew (global : Global) (hkey : global.key = some symbol.key)
        (haddress : global.address = symbol.address) :
        Owned (global :: r.globals) [] { symbol with context := some (.global symbol.key) } :=
      .global global List.mem_cons_self symbol.key hkey haddress rfl
    exact (hmore _).insert (hnew _ rfl rfl)

/-- The symbol at an entry keeps its address, or is made at it. -/
theorem RoutineReading.address_entrySymbol {globals : List Global} {routines : List Routine}
    {symbols : SymbolTable} (h : OwnedTable globals routines symbols) (address : UInt32)
    (key : TypeKey) : (entrySymbol symbols address key).address = address := by
  unfold entrySymbol
  cases hsymbol : symbols[address]? with
  | none => rfl
  | some symbol => exact (h address symbol hsymbol).1

theorem RoutineReading.addRecord_owned {globals : List Global} {r r' : RoutineReading}
    {record : Record} (h : OwnedTable globals r.routines r.symbols)
    (hadd : r.addRecord record = .ok r') : OwnedTable globals r'.routines r'.symbols := by
  rcases addRecord_cases hadd with ⟨-, rfl⟩ | ⟨address, -, -, rfl⟩
  · exact h
  · have haddress := address_entrySymbol h address record.key
    have hmore (routine : Routine) : OwnedTable globals (routine :: r.routines) r.symbols :=
      h.mono (fun _ => id) fun _ => List.mem_cons_of_mem routine
    have hnew (routine : Routine) (hkey : routine.key = record.key)
        (hentry : routine.address = address) :
        Owned globals (routine :: r.routines) (entrySymbol r.symbols address record.key) :=
      .function routine List.mem_cons_self (hentry.trans haddress.symm) (by rw [hkey]; rfl)
    have hinsert := (hmore { key := record.key, address, regions := record.regions }).insert
      (hnew _ rfl rfl)
    rw [haddress] at hinsert
    exact hinsert

/-! ## Finding owners -/

namespace Loader.Placed

variable {loader : Loader} {doc : Export} {program : Program} {symbols : SymbolTable}
  {read : GlobalReading} {entered : RoutineReading}

theorem ownedTable (h : Placed loader doc program symbols read entered) :
    OwnedTable read.globals entered.routines entered.symbols := by
  have hempty : OwnedTable [] [] ∅ := by simp [OwnedTable]
  have hsymbols : OwnedTable [] [] symbols :=
    foldlM_preserves SymbolTable.addRecord_owned hempty h.named
  obtain ⟨declared, -, hread⟩ := h.found
  have hglobals : OwnedTable read.globals [] read.symbols :=
    foldlM_preserves (P := fun r => OwnedTable r.globals [] r.symbols)
      GlobalReading.addRecord_owned hsymbols hread
  exact foldlM_preserves (P := fun r => OwnedTable read.globals r.routines r.symbols)
    RoutineReading.addRecord_owned hglobals h.called

/-- Every symbol of the program belongs to something at its own address, if to anything. -/
theorem owned (h : Placed loader doc program symbols read entered) {symbol : Symbol}
    (hmem : symbol ∈ program.symbols) : Owned program.globals program.routines symbol := by
  rw [h.symbols, values_eq_map_toList] at hmem
  obtain ⟨⟨address, symbol⟩, hentry, rfl⟩ := List.mem_map.mp hmem
  have hsymbol := Std.ExtTreeMap.mem_toList_iff_getElem?_eq_some.mp hentry
  refine (h.ownedTable address symbol hsymbol).2.mono (fun global hglobal => ?_) ?_
  · exact List.mem_map.mp (h.globals.mem_iff.mpr (List.mem_map_of_mem hglobal))
  · intro routine hroutine
    exact List.mem_map.mp (h.routines.mem_iff.mpr (List.mem_map_of_mem hroutine))

theorem routine_keys_nodup (h : Placed loader doc program symbols read entered) :
    (program.routines.map Routine.key).Nodup := by
  have hkeys := h.routines.map Prod.fst
  simp only [List.map_map] at hkeys
  exact hkeys.nodup_iff.mpr (RoutineReading.reads_ofExport h.called).nodup_keys

/-- A function is found by its key. -/
theorem routineOf?_key (h : Placed loader doc program symbols read entered) {routine : Routine}
    (hmem : routine ∈ program.routines) : program.routineOf? routine.key = some routine := by
  obtain ⟨place, hlast⟩ : ∃ place,
      LastOf (fun routine => some routine.key) program.routines routine.key place :=
    exists_lastOf hmem rfl
  obtain ⟨found, hfound, hkey⟩ := Option.bind_eq_some_iff.mp hlast.keyed
  have hsame : found = routine :=
    List.inj_on_of_nodup_map h.routine_keys_nodup (List.mem_of_getElem? hfound) hmem
      (Option.some.inj hkey)
  rw [Program.routineOf?, h.routinesByKey, Routine.getElem?_indexByKey.mpr hlast, Option.bind_some,
    hfound, hsame]

/-- By a key that a global has, the last of its globals is found. -/
theorem exists_globalOf? (h : Placed loader doc program symbols read entered) {global : Global}
    {key : TypeKey} (hmem : global ∈ program.globals) (hkey : global.key = some key) :
    ∃ last ∈ program.globals, program.globalOf? key = some last ∧ last.key = some key ∧
      ∀ other ∈ program.globals, other.key = some key → other.address ≤ last.address := by
  obtain ⟨place, hlast⟩ := exists_lastOf hmem hkey
  obtain ⟨last, hplace, hlastKey⟩ := Option.bind_eq_some_iff.mp hlast.keyed
  refine ⟨last, List.mem_of_getElem? hplace, ?_, hlastKey, ?_⟩
  · rw [Program.globalOf?, h.globalsByKey, Global.getElem?_indexByKey.mpr hlast, Option.bind_some,
      hplace]
  · exact fun other => h.address_le_last hlast hplace

end Loader.Placed

theorem address_le_of_twins {globals : List Global}
    (h : (globals.map Global.entry).Perm twinEntries) {global : Global} (hmem : global ∈ globals) :
    global.address ≤ 0x401004 := by
  have hentry : global.entry ∈ twinEntries := h.mem_iff.mp (List.mem_map_of_mem hmem)
  have hall : ∀ entry ∈ twinEntries, entry.1 ≤ 0x401004 := by decide
  exact hall global.entry hentry

/-- In a loaded program the owner of a symbol that belongs to something is
found. It stands at the symbol's own address, unless a global has the symbol's key
at a higher address. -/
theorem the_owner_of_a_symbol_is_found {loader : Loader} {doc : Export}
    {trace : Option (List UInt8)} {program : Program} (h : loader.load doc trace = .ok program)
    {symbol : Symbol} (hmem : symbol ∈ program.symbols) (hcontext : symbol.context ≠ none) :
    ∃ owner, program.ownerOf? symbol = some owner ∧
      (owner.address = symbol.address ↔ ∀ key, symbol.context = some (.global key) →
        ∀ global ∈ program.globals, global.key = some key → global.address ≤ symbol.address) := by
  obtain ⟨symbols, read, entered, hplaced⟩ := Loader.load_placed h
  cases hplaced.owned hmem with
  | nothing context => exact absurd context hcontext
  | function routine hroutine address context =>
    refine ⟨.function routine, ?_, ?_⟩
    · simp only [Program.ownerOf?, context, hplaced.routineOf?_key hroutine, Option.map_some]
    · simp [SymbolOwner.address, address, context]
  | global global hglobal key keyed address context =>
    obtain ⟨last, hlast, hfound, hkey, hle⟩ := hplaced.exists_globalOf? hglobal keyed
    refine ⟨.global last, ?_, ?_⟩
    · simp only [Program.ownerOf?, context, hfound, Option.map_some]
    · rw [SymbolOwner.address, context]
      constructor
      · intro haddress key' hkey'
        cases hkey'
        rw [← haddress]
        exact hle
      · intro hno
        apply UInt32.le_antisymm (hno key rfl last hlast hkey)
        rw [← address]
        exact hle global hglobal keyed

/-- Two globals share a key. The symbol of the first one is said to belong to the second. -/
theorem the_symbol_of_the_first_twin_has_another_owner : ∃ program symbol owner,
    Loader.load {} twins none = .ok program ∧ symbol ∈ program.symbols ∧
      symbol.address = 0x401000 ∧ program.ownerOf? symbol = some owner ∧
      owner.address = 0x401004 := by
  obtain ⟨program, symbols, read, entered, hload, hplaced, hentries, hsymbols⟩ := exists_load_twins
  obtain ⟨second, hsecond, hentry⟩ := List.mem_map.mp (hentries.mem_iff.mpr List.mem_cons_self)
  obtain ⟨haddress, hkey⟩ := Prod.mk.inj hentry
  obtain ⟨last, hlast, hfound, -, hle⟩ := hplaced.exists_globalOf? hsecond hkey
  have hmem : twinSymbol 0x401000 ∈ program.symbols := by
    rw [hsymbols]
    exact List.mem_cons_self
  refine ⟨program, twinSymbol 0x401000, .global last, hload, hmem, rfl, ?_, ?_⟩
  · exact congrArg (Option.map SymbolOwner.global) hfound
  · have hhigh := hle second hsecond hkey
    rw [haddress] at hhigh
    exact UInt32.le_antisymm (address_le_of_twins hentries hlast) hhigh

/-- The symbol of the second one belongs to it. -/
theorem the_second_twin_owns_its_symbol : ∃ program symbol owner,
    Loader.load {} twins none = .ok program ∧ symbol ∈ program.symbols ∧
      symbol.context ≠ none ∧ program.ownerOf? symbol = some owner ∧
      owner.address = symbol.address := by
  obtain ⟨program, symbols, read, entered, hload, -, hentries, hsymbols⟩ := exists_load_twins
  have hmem : twinSymbol 0x401004 ∈ program.symbols := by
    rw [hsymbols]
    exact List.mem_cons_of_mem _ List.mem_cons_self
  obtain ⟨owner, howner, haddress⟩ := the_owner_of_a_symbol_is_found hload hmem nofun
  refine ⟨program, twinSymbol 0x401004, owner, hload, hmem, nofun, howner, haddress.mpr ?_⟩
  exact fun key _ global hglobal _ => address_le_of_twins hentries hglobal

end BinaryAtlas
