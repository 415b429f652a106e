-- The laws of the symbols of a loaded program. Three kinds of records write the
-- table of symbols, one kind after the other: names replace each other, data
-- items claim the names that are there, and functions claim a name or make one.
-- In the end each symbol can be told from the records at its address alone.
import BinaryAtlas.Proofs.SymbolOwners

namespace BinaryAtlas

/-! ## Symbols by the records at their addresses -/

/-- The symbol of an address after functions have been entered there: the first one
makes it if it is missing, and it belongs to the last one. -/
def Symbol.entered (address : UInt32) (symbol? : Option Symbol) (entries : List Record) :
    Option Symbol :=
  let made := entries.head?.map fun record => of address record.key.scope record.key.name
  (symbol?.or made).map fun symbol =>
    { symbol with
      context := (entries.getLast?.map fun record => .function record.key).or symbol.context }

/-- The symbol that an export gives an address. It has the key of the last name there
that is kept. Without one it has the key of the first function entered there, whose
scope loses one more leading slash. It belongs to the last function entered
there, or else to the data item there, if there is one. -/
def Export.symbolAt? (doc : Export) (config : LoadConfig) (address : UInt32) : Option Symbol :=
  let names := (doc.recordsOf .symbol).filter (·.named? config == some address)
  let entries := doc.functions.filter (·.entryPoint? == some address)
  let key? := (names.getLast?.map Record.key).or
    (entries.head?.map fun record => .of record.key.scope record.key.name)
  key?.map fun key =>
    { address, key
      context := (entries.getLast?.map fun record => .function record.key).or
        (if (doc.recordsOf .definedData).any (·.datum? == some address) then some (.global key)
          else none) }

/-! ## Names -/

/-- The last name of each address is in the table, and nothing else is. -/
def SymbolTable.Names (config : LoadConfig) (records : List Record) (symbols : SymbolTable) :
    Prop :=
  ∀ address, symbols[address]? =
    (records.filter (·.named? config == some address)).getLast?.map fun record =>
      { address, key := record.key }

theorem SymbolTable.Names.addRecord {config : LoadConfig} {records : List Record}
    {symbols symbols' : SymbolTable} {record : Record} (h : Names config records symbols)
    (hadd : addRecord config symbols record = .ok symbols') :
    Names config (records ++ [record]) symbols' := by
  intro address
  rw [List.filter_append, List.getLast?_append]
  rcases addRecord_cases hadd with ⟨hnone, rfl⟩ | ⟨other, hnamed, rfl⟩
  · simp [hnone, h address]
  · rw [Std.ExtTreeMap.getElem?_insert]
    by_cases hsame : other = address
    · subst hsame
      simp [hnamed]
    · simp [hnamed, hsame, h address]

theorem SymbolTable.names_ofExport {config : LoadConfig} {doc : Export} {symbols : SymbolTable}
    (h : ofExport config doc = .ok symbols) : Names config (doc.recordsOf .symbol) symbols := by
  have hempty : Names config [] ∅ := fun _ => Std.ExtTreeMap.getElem?_empty
  exact foldlM_invariant (fun _ _ _ _ _ => Names.addRecord) hempty h

/-! ## Data items -/

/-- The symbols that were there belong to the data items at their addresses. -/
def GlobalReading.Claims (symbols : SymbolTable) (records : List Record) (r : GlobalReading) :
    Prop :=
  ∀ address, r.symbols[address]? = (symbols[address]?).map fun symbol : Symbol =>
    { symbol with
      context := if records.any (·.datum? == some address) then some (.global symbol.key)
        else symbol.context }

theorem GlobalReading.Claims.addRecord {symbols : SymbolTable} {records : List Record}
    {r r' : GlobalReading} {record : Record} (h : Claims symbols records r)
    (hadd : r.addRecord record = .ok r') : Claims symbols (records ++ [record]) r' := by
  intro address
  have hold := h address
  simp only [List.any_append, List.any_cons, List.any_nil, Bool.or_false]
  rcases addRecord_cases hadd with
    ⟨hnone, rfl⟩ | ⟨other, size, hdatum, -, ⟨hmissing, rfl⟩ | ⟨symbol, hsymbol, rfl⟩⟩
  · simp [hnone, hold]
  · by_cases hsame : other = address
    · subst hsame
      rw [hmissing, eq_comm, Option.map_eq_none_iff] at hold
      simp [hmissing, hold]
    · simp [hdatum, hsame, hold]
  · rw [Std.ExtTreeMap.getElem?_insert]
    by_cases hsame : other = address
    · subst hsame
      rw [hsymbol, eq_comm, Option.map_eq_some_iff] at hold
      obtain ⟨old, hold, rfl⟩ := hold
      simp [hold, hdatum]
    · simp [hdatum, hsame, hold]

theorem GlobalReading.claims_ofExport {types : TypeStore} {symbols : SymbolTable} {doc : Export}
    {read : GlobalReading} (h : ofExport types symbols doc = .ok read) :
    Claims symbols (doc.recordsOf .definedData) read := by
  have hstart : Claims symbols [] { types, symbols } := fun address => by simp
  exact foldlM_invariant (fun _ _ _ _ _ => Claims.addRecord) hstart h

/-! ## Functions -/

/-- One more function at the address. -/
theorem Symbol.entered_append (address : UInt32) (symbol? : Option Symbol) (entries : List Record)
    (record : Record) :
    entered address symbol? (entries ++ [record]) =
      some { (entered address symbol? entries).getD
          (of address record.key.scope record.key.name) with
        context := some (.function record.key) } := by
  unfold entered
  rw [List.getLast?_concat]
  cases symbol? <;> cases entries <;> rfl

/-- The functions that count have claimed the symbols at their entries. -/
structure RoutineReading.Claims (symbols : SymbolTable) (records : List Record)
    (r : RoutineReading) : Prop where
  reads : Reads records r
  claimed : ∀ address, r.symbols[address]? = Symbol.entered address symbols[address]?
    ((Record.functionsOf records).filter (·.entryPoint? == some address))

theorem RoutineReading.Claims.addRecord {symbols : SymbolTable} {records : List Record}
    {r r' : RoutineReading} {record : Record} (h : Claims symbols records r)
    (hadd : r.addRecord record = .ok r') : Claims symbols (records ++ [record]) r' := by
  refine ⟨h.reads.addRecord hadd, fun address => ?_⟩
  rcases h.reads.counts hadd with ⟨hsame, rfl⟩ | ⟨other, hentry, hmore, rfl⟩
  · rw [hsame, h.claimed]
  · rw [hmore, List.filter_append, enter, Std.ExtTreeMap.getElem?_insert]
    by_cases hsame : other = address
    · subst hsame
      simp [hentry, Symbol.entered_append, entrySymbol, h.claimed]
    · simp [hentry, hsame, h.claimed]

theorem RoutineReading.claims_ofExport {symbols : SymbolTable} {doc : Export}
    {entered : RoutineReading} (h : ofExport symbols doc = .ok entered) :
    Claims symbols (doc.recordsOf .function) entered := by
  have hstart : Claims symbols [] { symbols } := by
    refine ⟨reads_start symbols, fun address => ?_⟩
    simp [Record.functionsOf, Symbol.entered]
  exact foldlM_invariant (fun _ _ _ _ _ => Claims.addRecord) hstart h

/-! ## All three -/

namespace Loader.Placed

variable {loader : Loader} {doc : Export} {program : Program} {symbols : SymbolTable}
  {read : GlobalReading} {entered : RoutineReading}

theorem getElem?_symbols (h : Placed loader doc program symbols read entered) (address : UInt32) :
    entered.symbols[address]? = doc.symbolAt? loader.config address := by
  obtain ⟨declared, -, hread⟩ := h.found
  rw [(RoutineReading.claims_ofExport h.called).claimed,
    GlobalReading.claims_ofExport hread, SymbolTable.names_ofExport h.named]
  unfold Export.symbolAt? Symbol.entered Export.functions
  generalize List.filter _ (doc.recordsOf .symbol) = names
  generalize List.filter _ (Record.functionsOf (doc.recordsOf .function)) = entries
  cases hname : names.getLast? with
  | some record => simp [hname]
  | none =>
    cases entries with
    | nil => simp [hname]
    | cons first entries => simp [hname, Symbol.of, List.getLast?_cons]

theorem mem_symbols (h : Placed loader doc program symbols read entered) {symbol : Symbol} :
    symbol ∈ program.symbols ↔ doc.symbolAt? loader.config symbol.address = some symbol := by
  rw [h.symbols, values_eq_map_toList, ← h.getElem?_symbols, List.mem_map]
  constructor
  · rintro ⟨⟨address, symbol⟩, hentry, rfl⟩
    have hsymbol := Std.ExtTreeMap.mem_toList_iff_getElem?_eq_some.mp hentry
    rw [(h.ownedTable address symbol hsymbol).1, hsymbol]
  · intro hsymbol
    have hentry := Std.ExtTreeMap.mem_toList_iff_getElem?_eq_some.mpr hsymbol
    exact ⟨(symbol.address, symbol), hentry, rfl⟩

/-- The table is kept in the order of its addresses. -/
theorem pairwise_symbols (h : Placed loader doc program symbols read entered) :
    program.symbols.Pairwise fun a b => a.address < b.address := by
  rw [h.symbols, values_eq_map_toList, List.pairwise_map]
  have hordered := Std.ExtTreeMap.ordered_keys_toList (t := entered.symbols)
  refine hordered.imp_of_mem fun ha hb hlt => ?_
  rw [Std.ExtTreeMap.mem_toList_iff_getElem?_eq_some] at ha hb
  rw [(h.ownedTable _ _ ha).1, (h.ownedTable _ _ hb).1]
  exact Std.compare_eq_lt.mp hlt

end Loader.Placed

/-- In a loaded program the symbols ascend strictly, and they are just the ones that the
records at their addresses tell: the last name that is kept, or else the first function
that is entered there, gives the key; the last function or else the data item is what the
symbol belongs to. -/
theorem symbols_are_told_by_the_records_at_their_addresses {loader : Loader} {doc : Export}
    {trace : Option (List UInt8)} {program : Program} (h : loader.load doc trace = .ok program) :
    (program.symbols.Pairwise fun a b => a.address < b.address) ∧
      ∀ symbol, symbol ∈ program.symbols ↔
        doc.symbolAt? loader.config symbol.address = some symbol := by
  obtain ⟨symbols, read, entered, hplaced⟩ := Loader.load_placed h
  exact ⟨hplaced.pairwise_symbols, fun symbol => hplaced.mem_symbols⟩

def functionAt (entry scope name : String) : Record :=
  Record.withAttribute (.withAttribute (.withAttribute { kind := .function } "ENTRY_POINT" entry)
    "NAMESPACE" scope) "NAME" name

/-- Names, data items and functions that share addresses. The third function has the key of
the first one and does not count, and the last name is the label of a case. -/
def crowded : Export :=
  { records := [functionAt "00401000" "lib" "run", functionAt "00401000" "" "again",
      functionAt "00401004" "lib" "run", functionAt "00402000" "" "made",
      functionAt "00402000" "" "owner", symbolAt "00401000" "old", symbolAt "00401000" "new",
      symbolAt "00401004" "table", symbolAt "00402000" "caseD_1", intAt "00401000",
      intAt "00401004"] }

def crowdedSymbols : List Symbol :=
  [{ address := 0x401000, key := .root "new", context := some (.function (.root "again")) },
    { address := 0x401004, key := .root "table", context := some (.global (.root "table")) },
    { address := 0x402000, key := .root "made", context := some (.function (.root "owner")) }]

theorem symbols_of_crowded_addresses : ∃ program, Loader.load {} crowded none = .ok program ∧
    ∀ symbol ∈ crowdedSymbols, symbol ∈ program.symbols := by
  obtain ⟨program, h⟩ := exists_ok (x := Loader.load {} crowded none) (by decide +kernel)
  have hmain := symbols_are_told_by_the_records_at_their_addresses h
  have htold : ∀ symbol ∈ crowdedSymbols,
      crowded.symbolAt? {} symbol.address = some symbol := by decide +kernel
  exact ⟨program, h, fun symbol hmem => (hmain.2 symbol).mpr (htold symbol hmem)⟩

/-- A function whose scope begins with two slashes, and no name at its entry. -/
def slashed : Export := { records := [functionAt "00401000" "//lib" "run"] }

/-- The symbol at the entry of the only function has another key than the function. -/
theorem the_symbol_of_a_scope_with_two_slashes_has_another_key : ∃ program symbol record,
    Loader.load {} slashed none = .ok program ∧ symbol ∈ program.symbols ∧
      slashed.recordsOf .symbol = [] ∧ slashed.functions = [record] ∧
      record.entryPoint? = some symbol.address ∧
      symbol.context = some (.function record.key) ∧ symbol.key ≠ record.key := by
  obtain ⟨program, h⟩ := exists_ok (x := Loader.load {} slashed none) (by decide +kernel)
  obtain ⟨symbols, read, entered, hplaced⟩ := Loader.load_placed h
  let symbol : Symbol :=
    { address := 0x401000, key := .of "lib" "run",
      context := some (.function { scope := "/lib", name := "run" }) }
  have htold : slashed.symbolAt? {} symbol.address = some symbol := by decide +kernel
  refine ⟨program, symbol, functionAt "00401000" "//lib" "run", h,
    hplaced.mem_symbols.mpr htold, ?_, ?_, ?_, ?_, ?_⟩
  · decide +kernel
  · rfl
  · decide +kernel
  · decide +kernel
  · decide +kernel

end BinaryAtlas
