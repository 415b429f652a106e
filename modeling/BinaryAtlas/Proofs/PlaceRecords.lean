-- The laws of records that name, type or enter a place. What one record does to
-- a reading is told once for each kind. Of the records of functions, those with
-- a real entry count, and of each key the first one; the functions come from
-- them one by one.
import BinaryAtlas.Program.Places
import BinaryAtlas.Proofs.Declared
import Mathlib.Data.List.Induction
import Mathlib.Data.List.Nodup

namespace BinaryAtlas

/-! ## Real addresses -/

namespace Record

/-- The address in an attribute, if it is a place in the program. -/
def realAddress? (record : Record) (name : String) : Option UInt32 :=
  (record.address name).toOption.join

/-- The address that the record gives a name, if the settings keep the name. -/
def named? (config : LoadConfig) (record : Record) : Option UInt32 :=
  if SymbolTable.isLeftOut config (record.attributeOrEmpty "NAME") then none
  else record.realAddress? "ADDRESS"

/-- Where the data item of the record stands. -/
def datum? (record : Record) : Option UInt32 := record.realAddress? "ADDRESS"

/-- Where the function of the record is entered. -/
def entryPoint? (record : Record) : Option UInt32 := record.realAddress? "ENTRY_POINT"

/-- The region of a range with two real ends. -/
def region? (range : Record) : Option Region := do
  let first ← range.realAddress? "START"
  let last ← range.realAddress? "END"
  some { first, last }

/-- The regions of a function, in the order of its ranges. -/
def regions (record : Record) : List Region := (record.childrenOf .addressRange).filterMap region?

theorem realAddress?_of_address {record : Record} {name : String} {address : Option UInt32}
    (h : record.address name = .ok address) : record.realAddress? name = address := by
  rw [realAddress?, h]
  cases address <;> rfl

end Record

/-! ## One record -/

theorem SymbolTable.addRecord_cases {config : LoadConfig} {symbols symbols' : SymbolTable}
    {record : Record} (h : addRecord config symbols record = .ok symbols') :
    (record.named? config = none ∧ symbols' = symbols) ∨
      ∃ address, record.named? config = some address ∧
        symbols' = symbols.insert address { address, key := record.key } := by
  unfold addRecord at h
  rw [bind_eq_ok] at h
  obtain ⟨address, haddress, h⟩ := h
  rw [Record.named?, Record.realAddress?_of_address haddress]
  split at h
  · obtain rfl := Except.ok.inj h
    exact .inl ⟨ite_self none, rfl⟩
  · simp only at h
    split at h
    · rename_i hout
      obtain rfl := Except.ok.inj h
      exact .inl ⟨if_pos hout, rfl⟩
    · rename_i hout
      obtain rfl := Except.ok.inj h
      exact .inr ⟨_, if_neg hout, rfl⟩

theorem GlobalReading.addRecord_cases {r r' : GlobalReading} {record : Record}
    (h : r.addRecord record = .ok r') :
    (record.datum? = none ∧ r' = r) ∨
      ∃ address size, record.datum? = some address ∧ record.number "SIZE" = .ok size ∧
        ((r.symbols[address]? = none ∧
          r' = { r with
            types := (r.types.get record.dataTypeKey).2
            globals := { address, size, type := (r.types.get record.dataTypeKey).1 } ::
              r.globals }) ∨
        ∃ symbol, r.symbols[address]? = some symbol ∧
          r' = {
            types := (r.types.get record.dataTypeKey).2
            symbols :=
              r.symbols.insert address { symbol with context := some (.global symbol.key) }
            globals :=
              .mk address size (r.types.get record.dataTypeKey).1 (some symbol.key) ::
                r.globals }) := by
  unfold addRecord at h
  rw [bind_eq_ok] at h
  obtain ⟨address, haddress, h⟩ := h
  have hdatum : record.datum? = address := Record.realAddress?_of_address haddress
  split at h
  · obtain rfl := Except.ok.inj h
    exact .inl ⟨hdatum, rfl⟩
  · simp only [bind_eq_ok] at h
    obtain ⟨size, hsize, h⟩ := h
    refine .inr ⟨_, size, hdatum, hsize, ?_⟩
    split at h
    · rename_i hnone
      obtain rfl := Except.ok.inj h
      exact .inl ⟨hnone, rfl⟩
    · rename_i symbol hsymbol
      obtain rfl := Except.ok.inj h
      exact .inr ⟨symbol, hsymbol, rfl⟩

namespace RoutineReading

theorem region?_of_readRegion {range : Record} {region : Option Region}
    (h : readRegion range = .ok region) : range.region? = region := by
  unfold readRegion at h
  simp only [bind_eq_ok] at h
  obtain ⟨first, hfirst, last, hlast, h⟩ := h
  rw [Record.region?, Record.realAddress?_of_address hfirst, Record.realAddress?_of_address hlast]
  cases first <;> cases last <;> exact Except.ok.inj h

theorem filterMap_of_mapM_readRegion {ranges : List Record} {regions : List (Option Region)}
    (h : ranges.mapM readRegion = .ok regions) :
    regions.filterMap id = ranges.filterMap Record.region? := by
  induction ranges generalizing regions with
  | nil =>
    obtain rfl := Except.ok.inj h
    rfl
  | cons range ranges ih =>
    rw [List.mapM_cons] at h
    simp only [bind_eq_ok] at h
    obtain ⟨region, hregion, rest, hrest, h⟩ := h
    obtain rfl := Except.ok.inj h
    rw [List.filterMap_cons, List.filterMap_cons, region?_of_readRegion hregion, ih hrest]
    rfl

/-- The reading with one more function, which the symbol at its entry belongs to. -/
def enter (r : RoutineReading) (routine : Routine) : RoutineReading where
  symbols :=
    r.symbols.insert routine.address (entrySymbol r.symbols routine.address routine.key)
  seen := r.seen.insert routine.key
  routines := routine :: r.routines

theorem addRecord_cases {r r' : RoutineReading} {record : Record}
    (h : r.addRecord record = .ok r') :
    ((record.entryPoint? = none ∨ r.seen.contains record.key = true) ∧ r' = r) ∨
      ∃ address, record.entryPoint? = some address ∧ ¬ r.seen.contains record.key = true ∧
        r' = r.enter { key := record.key, address, regions := record.regions } := by
  unfold addRecord at h
  rw [bind_eq_ok] at h
  obtain ⟨address, haddress, h⟩ := h
  have hentry : record.entryPoint? = address := Record.realAddress?_of_address haddress
  split at h
  · obtain rfl := Except.ok.inj h
    exact .inl ⟨.inl hentry, rfl⟩
  · simp only [bind_eq_ok] at h
    obtain ⟨ranges, hranges, h⟩ := h
    split at h
    · rename_i hseen
      obtain rfl := Except.ok.inj h
      exact .inl ⟨.inr hseen, rfl⟩
    · rename_i hnew
      obtain rfl := Except.ok.inj h
      refine .inr ⟨_, hentry, hnew, ?_⟩
      rw [enter, Record.regions, ← filterMap_of_mapM_readRegion hranges]

end RoutineReading

/-! ## The records of functions -/

/-- One more item joins the others if it is not like one that is there already. -/
theorem eraseDupsBy_append_singleton {Item : Type} (like : Item → Item → Bool) (items : List Item)
    (item : Item) :
    (items ++ [item]).eraseDupsBy like =
      if (items.eraseDupsBy like).any (like item) then items.eraseDupsBy like
      else items.eraseDupsBy like ++ [item] := by
  -- The loop carries the items kept so far, so the statement is about any such list.
  suffices hloop : ∀ kept : List Item, List.eraseDupsBy.loop like (items ++ [item]) kept =
      if (List.eraseDupsBy.loop like items kept).any (like item) then
        List.eraseDupsBy.loop like items kept
      else List.eraseDupsBy.loop like items kept ++ [item] from hloop []
  induction items with
  | nil =>
    intro kept
    simp only [List.nil_append, List.eraseDupsBy.loop, List.any_reverse]
    cases kept.any (like item) <;> simp
  | cons first items ih =>
    intro kept
    simp only [List.cons_append, List.eraseDupsBy.loop]
    by_cases hfirst : kept.any (like first) = true
    · simp only [hfirst]
      exact ih kept
    · simp only [Bool.not_eq_true] at hfirst
      simp only [hfirst]
      exact ih (first :: kept)

namespace Record

/-- Of the records with a real entry, the first one of each key. -/
def functionsOf (records : List Record) : List Record :=
  (records.filter (·.entryPoint?.isSome)).eraseDupsBy fun a b => a.key == b.key

theorem functionsOf_append_singleton (records : List Record) (record : Record) :
    functionsOf (records ++ [record]) =
      if record.entryPoint?.isSome ∧ record.key ∉ (functionsOf records).map key then
        functionsOf records ++ [record]
      else functionsOf records := by
  unfold functionsOf
  rw [List.filter_append]
  by_cases hentry : record.entryPoint?.isSome = true
  · have hone : [record].filter (·.entryPoint?.isSome) = [record] := by
      simpa using hentry
    rw [hone, eraseDupsBy_append_singleton]
    generalize List.eraseDupsBy _ _ = kept
    have hany : kept.any (fun other => record.key == other.key) = true ↔
        record.key ∈ kept.map key := by
      rw [List.any_eq_true, List.mem_map]
      exact exists_congr fun other => and_congr_right fun _ => by rw [beq_iff_eq, eq_comm]
    by_cases hkey : record.key ∈ kept.map key
    · rw [if_pos (hany.mpr hkey), if_neg fun h => h.2 hkey]
    · rw [if_neg (mt hany.mp hkey), if_pos ⟨hentry, hkey⟩]
  · have hnone : [record].filter (·.entryPoint?.isSome) = [] := by
      simpa using hentry
    rw [hnone, List.append_nil, if_neg fun h => hentry h.1]

/-- No two of the records have one key. -/
theorem nodup_keys_functionsOf (records : List Record) :
    ((functionsOf records).map key).Nodup := by
  induction records using List.reverseRecOn with
  | nil => exact List.nodup_nil
  | append_singleton records record ih =>
    rw [functionsOf_append_singleton]
    split
    · rename_i hnew
      rw [List.map_append, List.nodup_append]
      exact ⟨ih, List.nodup_singleton _, fun a ha b hb heq =>
        hnew.2 (List.mem_singleton.mp hb ▸ heq ▸ ha)⟩
    · exact ih

end Record

/-- The records that the functions of an export come from. -/
def Export.functions (doc : Export) : List Record := Record.functionsOf (doc.recordsOf .function)

/-! ## All records of functions -/

namespace RoutineReading

/-- A function as it is read from its record. -/
structure ReadFrom (record : Record) (routine : Routine) : Prop where
  key : routine.key = record.key
  entry : record.entryPoint? = some routine.address
  regions : routine.regions = record.regions

theorem keys_of_readFrom {records : List Record} {routines : List Routine}
    (h : List.Forall₂ ReadFrom records routines) :
    records.map Record.key = routines.map Routine.key := by
  rw [← List.forall₂_eq_eq_eq, List.forall₂_map_left_iff, List.forall₂_map_right_iff]
  exact h.imp fun _ _ hone => hone.key.symm

/-- The functions so far come from the records so far. -/
structure Reads (records : List Record) (r : RoutineReading) : Prop where
  read : List.Forall₂ ReadFrom (Record.functionsOf records) r.routines.reverse
  seen : ∀ key, r.seen.contains key = true ↔ key ∈ (Record.functionsOf records).map Record.key

variable {records : List Record} {r r' : RoutineReading} {record : Record}

theorem Reads.nodup_keys (h : Reads records r) : (r.routines.map Routine.key).Nodup := by
  rw [← List.nodup_reverse, ← List.map_reverse, ← keys_of_readFrom h.read]
  exact Record.nodup_keys_functionsOf records

/-- A record that counts adds its function, and any other record adds nothing. -/
theorem Reads.counts (h : Reads records r) (hadd : r.addRecord record = .ok r') :
    (Record.functionsOf (records ++ [record]) = Record.functionsOf records ∧ r' = r) ∨
      ∃ address, record.entryPoint? = some address ∧
        Record.functionsOf (records ++ [record]) = Record.functionsOf records ++ [record] ∧
        r' = r.enter { key := record.key, address, regions := record.regions } := by
  rw [Record.functionsOf_append_singleton]
  rcases addRecord_cases hadd with ⟨hskip, rfl⟩ | ⟨address, hentry, hnew, rfl⟩
  · refine .inl ⟨if_neg ?_, rfl⟩
    rintro ⟨hentry, hnew⟩
    rcases hskip with hnone | hseen
    · rw [hnone] at hentry
      cases hentry
    · exact hnew ((h.seen _).mp hseen)
  · rw [h.seen] at hnew
    exact .inr ⟨address, hentry, if_pos ⟨by rw [hentry]; rfl, hnew⟩, rfl⟩

theorem Reads.addRecord (h : Reads records r) (hadd : r.addRecord record = .ok r') :
    Reads (records ++ [record]) r' := by
  rcases h.counts hadd with ⟨hsame, rfl⟩ | ⟨address, hentry, hmore, rfl⟩
  · exact ⟨by rw [hsame]; exact h.read, by rw [hsame]; exact h.seen⟩
  · refine ⟨?_, fun key => ?_⟩
    · rw [hmore, enter, List.reverse_cons]
      exact List.rel_append h.read (.cons ⟨rfl, hentry, rfl⟩ .nil)
    · rw [hmore, enter, Std.ExtTreeSet.contains_insert, Bool.or_eq_true, h.seen, beq_iff_eq,
        Std.compare_eq_iff_eq, List.map_append, List.mem_append, List.map_singleton,
        List.mem_singleton, or_comm, eq_comm]

theorem reads_start (symbols : SymbolTable) : Reads [] { symbols } :=
  ⟨.nil, fun key => by simp [Record.functionsOf]⟩

theorem reads_ofExport {symbols : SymbolTable} {doc : Export} (h : ofExport symbols doc = .ok r) :
    Reads (doc.recordsOf .function) r :=
  foldlM_invariant (fun _ _ _ _ _ => Reads.addRecord) (reads_start symbols) h

end RoutineReading

end BinaryAtlas
