-- The laws of a load. What the declarations come to lasts through the rest of
-- the load: comments add directives, globals ask for types, and the resolution
-- moves references. In the end no reference is left on a placeholder whose key
-- has a declaration.
import BinaryAtlas.Program.Load
import BinaryAtlas.Proofs.Comments
import BinaryAtlas.Proofs.PlaceRecords
import BinaryAtlas.Proofs.ResolveAll

namespace BinaryAtlas

open TypeStore Declaration

/-! ## Types -/

namespace TypeStore

variable {store : TypeStore} {records : List Record}

/-- A reference that leads to a placeholder at all leads to the one that its
key stands for, and no record declares a type of that key. -/
def Settled (store : TypeStore) (records : List Record) (r : Slot) : Prop :=
  ∀ e, store.entity? r = some e → e.shape.isPlaceholder = true →
    store.lookup e.key = some r ∧ Record.lastToDeclare? records e.key = none

/-- What a record describes is still described after the resolution. -/
theorem resolve_declares (h : Indexed store) (hdeclares : Declares store records) :
    Declares store.resolve.2 records := by
  intro key record hlast
  obtain ⟨e, he, hdescribes⟩ := hdeclares key record hlast
  have hmoved : Describes store.resolve.2 record (store.resolveEntity e).shape := by
    apply hdescribes.mapRefs
    intro r key hkey
    rw [(resolve_resolves h).places.keyAt?, keyAt?_resolveSlot h, hkey]
  refine ⟨_, ?_, hmoved⟩
  rw [(resolve_resolves h).byKey?_all h (.refl _), he, Option.map_some]

/-- No declared key stands for a placeholder. -/
theorem not_mem_unresolved (hdeclares : Declares store records) {key : TypeKey} {record : Record}
    (hlast : Record.lastToDeclare? records key = some record) : key ∉ store.unresolved := by
  obtain ⟨e, he, hdescribes⟩ := hdeclares key record hlast
  obtain ⟨slot, hkey, hslot⟩ := byKey?_eq_some.mp he
  unfold unresolved
  simp [hkey, isPlaceholder, hslot, hdescribes.declared.2]

/-- A reference that stays where it is when it is resolved. -/
theorem settled_of_resolveSlot (h : Indexed store) (hdeclares : Declares store records) {r : Slot}
    (hr : store.resolveSlot r = r) : Settled store records r := by
  intro e he hp
  have hkey : store.lookup e.key = some r := by
    rw [← hr] at he ⊢
    exact lookup_of_isPlaceholder_resolveSlot h he hp
  refine ⟨hkey, ?_⟩
  cases hlast : Record.lastToDeclare? records e.key with
  | none => rfl
  | some record =>
    obtain ⟨e', he', hdescribes⟩ := hdeclares e.key record hlast
    rw [byKey?, hkey, Option.bind_some, he] at he'
    obtain rfl := Option.some.inj he'
    rw [hdescribes.declared.2] at hp
    cases hp

end TypeStore

/-! ## Globals -/

/-- Globals do no more to the types than ask for some. -/
theorem GlobalReading.ofExport_grows {types : TypeStore} {symbols : SymbolTable} {doc : Export}
    {read : GlobalReading} (h : ofExport types symbols doc = .ok read) :
    Grows types read.types := by
  have hstep {r r' : GlobalReading} {record : Record} (hr : Grows types r.types)
      (hadd : r.addRecord record = .ok r') : Grows types r'.types := by
    have hget := grows_trans hr (get_gets r.types record.dataTypeKey).grows
    rcases addRecord_cases hadd with ⟨-, rfl⟩ | ⟨address, size, -, -, ⟨-, rfl⟩ | ⟨symbol, -, rfl⟩⟩
    · exact hr
    · exact hget
    · exact hget
  exact foldlM_preserves (P := fun r => Grows types r.types) hstep (grows_refl types) h

/-- The types of all globals move as references of types do. -/
theorem Global.run_mapM_resolve {store : TypeStore} (h : Indexed store) (globals : List Global) :
    ∃ moved, (globals.mapM Global.resolve).run { store } =
      (globals.map fun g => { g with type := store.resolveSlot g.type }, { store, moved }) := by
  have hf := Resolving.follows_ref h
  have hvisit (g : Global) (r : Resolving) (hr : r.store = store) :
      g.resolve.run r = ({ g with type := store.resolveSlot g.type },
        [g.type].foldl (fun r slot => { r with moved := r.moved || store.isLoose slot }) r) := by
    rw [Global.resolve, run_bind_of_run (hf.run hr g.type)]
    rfl
  rw [hf.run_mapM hvisit globals rfl, Resolving.foldl_moved]
  exact ⟨_, rfl⟩

/-! ## The whole load -/

namespace Loader

/-- The stages behind a program: the store of all declarations, the named addresses,
the globals and the functions, each as it was read. -/
structure Stages (loader : Loader) (doc : Export) (trace : Option (List UInt8))
    (program : Program) (declared : TypeStore) (symbols : SymbolTable) (read : GlobalReading)
    (entered : RoutineReading) : Prop where
  declares : addAll (.withBuiltins loader.config.pointerSize) doc = .ok declared
  named : SymbolTable.ofExport loader.config doc = .ok symbols
  found : GlobalReading.ofExport declared symbols doc = .ok read
  called : RoutineReading.ofExport read.symbols doc = .ok entered
  types : program.types = (read.types.attachDirectives (loader.order.keys read.types)).resolve.2
  globals : program.globals =
    read.sorted.map fun g => { g with type := program.types.resolveSlot g.type }
  globalsByKey : program.globalsByKey = Global.indexByKey program.globals
  namespaces : program.namespaces = .ofGlobals program.globals program.globalsByKey
  symbols : program.symbols = entered.symbols.values
  routines : program.routines =
    (loader.connect (Routine.place loader.filter entered.sorted) trace).1
  routinesByKey : program.routinesByKey =
    Routine.indexByKey (Routine.place loader.filter entered.sorted)

section

variable {loader : Loader} {doc : Export} {trace : Option (List UInt8)} {program : Program}
  {declared : TypeStore} {symbols : SymbolTable} {read : GlobalReading} {entered : RoutineReading}

/-- Globals and comments keep what the declarations come to. -/
theorem attached_of_found
    (hdeclared : addAll (.withBuiltins loader.config.pointerSize) doc = .ok declared)
    (hfound : GlobalReading.ofExport declared symbols doc = .ok read) (keys : List TypeKey) :
    Indexed (read.types.attachDirectives keys) ∧
      Declares (read.types.attachDirectives keys) doc.declarations := by
  have hdeclaring := declaring_of_grows (GlobalReading.ofExport_grows hfound)
    (addAll_declaring hdeclared)
  exact attachDirectives_declares keys ⟨hdeclaring.indexed, hdeclaring.declares⟩

/-- A load that succeeds has gone through all its stages. -/
theorem load_stages (h : loader.load doc trace = .ok program) :
    ∃ declared symbols read entered,
      Stages loader doc trace program declared symbols read entered := by
  unfold load at h
  simp only [bind_eq_ok] at h
  obtain ⟨declared, hdeclared, symbols, hsymbols, read, hread, h⟩ := h
  have hi := (attached_of_found hdeclared hread (loader.order.keys read.types)).1
  have hresolved := (resolve_resolves hi).places.indexed hi
  obtain ⟨moved, hglobals⟩ := Global.run_mapM_resolve hresolved read.sorted
  simp only [resolveKeys_visit hi, hglobals, bind_eq_ok] at h
  obtain ⟨entered, hentered, h⟩ := h
  obtain rfl := Except.ok.inj h
  exact ⟨declared, symbols, read, entered, hdeclared, hsymbols, hread, hentered, rfl, rfl, rfl, rfl,
    rfl, rfl, rfl⟩

/-- The types and the globals of a program come out of the declarations. -/
theorem load_ok (h : loader.load doc trace = .ok program) :
    ∃ store, Indexed store ∧ Declares store doc.declarations ∧
      program.types = store.resolve.2 ∧
      ∀ g ∈ program.globals, ∃ r, g.type = store.resolve.2.resolveSlot r := by
  obtain ⟨declared, symbols, read, entered, hstages⟩ := load_stages h
  obtain ⟨hi, hdeclares⟩ := attached_of_found hstages.declares hstages.found
    (loader.order.keys read.types)
  refine ⟨_, hi, hdeclares, hstages.types, ?_⟩
  intro g hg
  rw [hstages.globals] at hg
  obtain ⟨old, -, rfl⟩ := List.mem_map.mp hg
  exact ⟨old.type, by rw [hstages.types]⟩

end

end Loader

/-- In a loaded program each declared key stands for a type that the last
record for it describes, and every reference that still leads to a placeholder
leads to the one of its key, which no record declares. It holds in whatever order the
loader visits keys. -/
theorem a_loaded_program_has_every_declared_type {loader : Loader} {doc : Export}
    {trace : Option (List UInt8)} {program : Program} (h : loader.load doc trace = .ok program) :
    (∀ key record, Record.lastToDeclare? doc.declarations key = some record →
      key ∉ program.types.unresolved ∧
      ∃ e, program.types.byKey? key = some e ∧ e.key = key ∧
        Describes program.types record e.shape) ∧
    (∀ key e, program.types.byKey? key = some e →
      ∀ r ∈ e.refs, Settled program.types doc.declarations r) ∧
    ∀ g ∈ program.globals, Settled program.types doc.declarations g.type := by
  obtain ⟨store, hi, hstore, htypes, hglobals⟩ := Loader.load_ok h
  have hindexed := (resolve_resolves hi).places.indexed hi
  have hdeclares := resolve_declares hi hstore
  rw [htypes]
  refine ⟨?_, ?_, ?_⟩
  · intro key record hlast
    refine ⟨not_mem_unresolved hdeclares hlast, ?_⟩
    obtain ⟨e, he, hdescribes⟩ := hdeclares key record hlast
    obtain ⟨slot, hkey, hslot⟩ := byKey?_eq_some.mp he
    obtain ⟨e', he', hk⟩ := hindexed.registered hkey
    obtain rfl := Option.some.inj (he'.symm.trans hslot)
    exact ⟨_, he, hk, hdescribes⟩
  · intro key e he r hr
    apply settled_of_resolveSlot hindexed hdeclares
    exact hasLoose_eq_false_iff.mp ((resolve_resolves hi).not_hasLoose hi (.refl _) he) r hr
  · intro g hg
    obtain ⟨r, hr⟩ := hglobals g hg
    apply settled_of_resolveSlot hindexed hdeclares
    rw [hr]
    exact resolveSlot_resolveSlot hindexed r

/-- A member of a struct, with a comment. -/
def commentedMember (name offset type comment : String) : Record :=
  let plain := Record.withAttribute (.withAttribute (.withAttribute (.withAttribute
    { kind := .member } "NAME" name) "DATATYPE" type) "OFFSET" offset) "SIZE" "4"
  plain.withChild (.withText { kind := .comment } comment)

def nodeRecord : Record :=
  (Record.withAttribute (.withAttribute { kind := .layout } "NAME" "node") "SIZE" "4").withChild
    (commentedMember "next" "0" "link *" "in the hands of @ptr(owner)")

def linkRecord : Record :=
  Record.withAttribute (.withAttribute { kind := .typeDef } "NAME" "link") "DATATYPE" "node"

/-- A struct with a pointer to a type definition that names the struct. -/
def circle : Export := { records := [nodeRecord, linkRecord] }

theorem a_circle_of_declarations_loads :
    ∃ program, Loader.load { order := .descending } circle none = .ok program ∧
      (∃ e, program.types.byKey? (.root "node") = some e ∧
        Describes program.types nodeRecord e.shape) ∧
      ∃ e, program.types.byKey? (.root "link") = some e ∧
        Describes program.types linkRecord e.shape := by
  have hsome : (Loader.load { order := .descending } circle none).toOption.isSome = true := by
    decide +kernel
  cases h : Loader.load { order := .descending } circle none with
  | error fault =>
    rw [h] at hsome
    cases hsome
  | ok program =>
    have hmain := (a_loaded_program_has_every_declared_type h).1
    obtain ⟨-, node, hnode, -, hnodeShape⟩ := hmain (.root "node") nodeRecord rfl
    obtain ⟨-, link, hlink, -, hlinkShape⟩ := hmain (.root "link") linkRecord rfl
    exact ⟨program, rfl, ⟨node, hnode, hnodeShape⟩, ⟨link, hlink, hlinkShape⟩⟩

end BinaryAtlas
