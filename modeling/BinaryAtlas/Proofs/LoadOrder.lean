-- The laws of the order of an export. Two exports whose declaring records
-- differ in their order only both fail to load, or give programs that say the
-- same of every key: the same types with the same references, the same sizes,
-- and the same keys without a type. Each load visits keys in an order of its own.
import BinaryAtlas.Proofs.DeclarationOrder
import BinaryAtlas.Proofs.LoadedTypes
import BinaryAtlas.Proofs.VisitOrders
import Mathlib.Data.List.Perm.Basic

namespace BinaryAtlas

open TypeStore Declaration

/-! ## Lists side by side -/

/-- Two lists that are sorted in the same way stay side by side. -/
theorem forall₂_mergeSort {α β : Type} {R : α → β → Prop} {le : α → α → Bool} {le' : β → β → Bool}
    (hle : ∀ x y x' y', R x x' → R y y' → le x y = le' x' y') {xs : List α} {ys : List β}
    (h : List.Forall₂ R xs ys) : List.Forall₂ R (xs.mergeSort le) (ys.mergeSort le') := by
  obtain ⟨hlength, hzip⟩ := List.forall₂_iff_zip.mp h
  -- Both lists are sorted as one list of pairs.
  have hleft := List.map_mergeSort (l := xs.zip ys) (f := Prod.fst) (s := le)
    (r := fun p q => le p.1 q.1) fun _ _ _ _ => rfl
  have hright := List.map_mergeSort (l := xs.zip ys) (f := Prod.snd) (s := le')
    (r := fun p q => le p.1 q.1) fun p hp q hq => hle _ _ _ _ (hzip hp) (hzip hq)
  rw [List.map_fst_zip (Nat.le_of_eq hlength)] at hleft
  rw [List.map_snd_zip (Nat.le_of_eq hlength.symm)] at hright
  rw [← hleft, ← hright, List.forall₂_map_left_iff, List.forall₂_map_right_iff, List.forall₂_same]
  exact fun p hp => hzip (List.mem_mergeSort.mp hp)

namespace TypeStore

/-! ## Resolved stores -/

/-- A resolution leaves a store sound. -/
theorem sound_resolve {store : TypeStore} (h : Sound store) : Sound store.resolve.2 := by
  have hr := resolve_resolves h.indexed
  have hkeys : store.resolve.2.keys = store.keys := by rw [keys, keys, hr.index]
  refine ⟨hr.places.indexed h.indexed, hr.closed h.indexed h.closed, ?innerKnown, ?noneReplaced⟩
  case innerKnown =>
    intro key inner count hinner hkey
    rw [hkeys] at hkey ⊢
    exact h.innerKnown key inner count hinner hkey
  case noneReplaced =>
    intro slot e he hp
    rw [hr.entity?] at he
    obtain ⟨old, hold, rfl⟩ := Option.map_eq_some_iff.mp he
    rw [hr.places.lookup]
    split at hp
    · rename_i hmoved
      rw [if_pos hmoved]
      exact hmoved.2
    · rename_i hstays
      rw [if_neg hstays]
      exact h.noneReplaced slot old hold hp

/-- A resolution says of each key what the store said. -/
theorem view_resolve {store : TypeStore} (h : Indexed store) (number : Option TypeKey → Slot)
    (key : TypeKey) : store.resolve.2.view number key = store.view number key := by
  have hr := resolve_resolves h
  rw [view, view, hr.byKey?_all h (.refl _), Option.map_map]
  congr 1
  funext e
  rw [Function.comp_apply, numbered, numbered, resolveEntity, Entity.mapRefs, Entity.mapRefs,
    Entity.mapRefs, Shape.mapRefs_mapRefs]
  congr 2
  funext r
  rw [Function.comp_apply, hr.places.keyAt?, keyAt?_resolveSlot h]

theorem Similar.resolve {store store' : TypeStore} (h : Similar store store') :
    Similar store.resolve.2 store'.resolve.2 where
  sound := sound_resolve h.sound
  sound' := sound_resolve h.sound'
  pointerSize := by
    rw [(resolve_resolves h.sound'.indexed).pointerSize,
      (resolve_resolves h.sound.indexed).pointerSize, h.pointerSize]
  view := by
    intro number key
    rw [view_resolve h.sound.indexed, view_resolve h.sound'.indexed, h.view number key]

/-- Every reference of a registered type is the slot that its key stands for. -/
def AllCurrent (store : TypeStore) : Prop :=
  ∀ key e, store.byKey? key = some e → ∀ r ∈ e.refs, IsCurrent store r

theorem allCurrent_resolve {store : TypeStore} (h : Sound store) : AllCurrent store.resolve.2 := by
  have hr := resolve_resolves h.indexed
  intro key e he r hmem
  rw [hr.byKey?_all h.indexed (.refl _)] at he
  obtain ⟨old, hold, rfl⟩ := Option.map_eq_some_iff.mp he
  rw [refs_resolveEntity] at hmem
  obtain ⟨start, hstart, rfl⟩ := List.mem_map.mp hmem
  rw [hr.places.isCurrent_iff]
  exact isCurrent_resolveSlot h.indexed h.noneReplaced (h.refs_lt hold start hstart)

/-! ## What references lead to -/

/-- Two references, each in a store of its own, to types of one key and of one
kind, which are the ones that the key stands for. -/
def SameTarget (store store' : TypeStore) (r r' : Slot) : Prop :=
  ∃ e e', store.entity? r = some e ∧ store'.entity? r' = some e' ∧
    e'.key = e.key ∧ e'.kind = e.kind ∧
    store.lookup e.key = some r ∧ store'.lookup e.key = some r'

section

variable {store store' : TypeStore}

/-- A registered key has slots in both stores, with types that say the same. -/
theorem Similar.lookup (h : Similar store store') {key : TypeKey} {slot : Slot}
    (hkey : store.lookup key = some slot) :
    ∃ slot' e e', store'.lookup key = some slot' ∧ store.entity? slot = some e ∧
      store'.entity? slot' = some e' ∧ e.key = key ∧ Matches store store' e e' := by
  obtain ⟨e, he, hk⟩ := h.sound.indexed.registered hkey
  obtain ⟨e', hby, hsame⟩ := h.byKey? (byKey?_eq_some.mpr ⟨slot, hkey, he⟩)
  obtain ⟨slot', hkey', he'⟩ := byKey?_eq_some.mp hby
  exact ⟨slot', e, e', hkey', he, he', hk, hsame⟩

/-- The slots of one key in similar stores. -/
theorem Similar.sameTarget (h : Similar store store') {key : TypeKey} {r r' : Slot}
    (hkey : store.lookup key = some r) (hkey' : store'.lookup key = some r') :
    SameTarget store store' r r' := by
  obtain ⟨slot', e, e', hlookup, he, he', rfl, hsame⟩ := h.lookup hkey
  obtain rfl := Option.some.inj (hlookup.symm.trans hkey')
  exact ⟨e, e', he, he', hsame.key, hsame.kind, hkey, hkey'⟩

/-- The references of types that say the same lead to the same. -/
theorem Similar.refs (h : Similar store store') {e e' : Entity} (hsame : Matches store store' e e')
    (hrefs : ∀ r ∈ e.refs, IsCurrent store r) (hrefs' : ∀ r ∈ e'.refs, IsCurrent store' r) :
    List.Forall₂ (SameTarget store store') e.refs e'.refs := by
  have hkeys : List.Forall₂ (fun r r' => store.keyAt? r = store'.keyAt? r') e.refs e'.refs := by
    have heq := hsame.refs.symm
    rwa [← List.forall₂_eq_eq_eq, List.forall₂_map_left_iff, List.forall₂_map_right_iff] at heq
  obtain ⟨hlength, hzip⟩ := List.forall₂_iff_zip.mp hkeys
  refine List.forall₂_iff_zip.mpr ⟨hlength, fun hmem => ?_⟩
  obtain ⟨hr, hr'⟩ := List.of_mem_zip hmem
  obtain ⟨key, hk, hlookup⟩ := hrefs _ hr
  obtain ⟨key', hk', hlookup'⟩ := hrefs' _ hr'
  rw [← hzip hmem, hk, Option.some.injEq] at hk'
  exact h.sameTarget hlookup (hk' ▸ hlookup')

end

/-! ## Sizes -/

/-- The size of a shape, where the sizes of other types are known. -/
def sizeBy (pointerSize : UInt32) (inner : Slot → Option UInt32) : Shape → Option UInt32
  | .primitive size => some size
  | .enumeration size _ => some size
  | .struct layout => some layout.size
  | .union layout => some layout.size
  | .signature _ _ => some pointerSize
  | .pointer _ => some pointerSize
  | .typedef target => inner target
  | .array element count => (inner element).map (saturatingMul · count)
  | .string => none
  | .placeholder => some 0

/-- The sizes of other types, when so many more hops are left. -/
def innerSize (store : TypeStore) : Nat → Slot → Option UInt32
  | 0, _ => none
  | hops + 1, slot => store.sizeWithin hops slot

theorem sizeWithin_eq {store : TypeStore} {slot : Slot} {e : Entity}
    (he : store.entity? slot = some e) (hops : Nat) :
    store.sizeWithin hops slot = sizeBy store.pointerSize (store.innerSize hops) e.shape := by
  unfold sizeWithin
  rw [he]
  cases hshape : e.shape <;> cases hops <;> simp only [hshape, sizeBy, innerSize, Option.map_none]

/-- The size is told by all but the references, and by the sizes that they lead
to. -/
theorem sizeBy_eq {shape shape' : Shape} {inner inner' : Slot → Option UInt32}
    (hblank : shape'.mapRefs (fun _ => 0) = shape.mapRefs fun _ => 0)
    (hrefs : List.Forall₂ (fun r r' => inner' r' = inner r) shape.refs shape'.refs)
    (pointerSize : UInt32) : sizeBy pointerSize inner' shape' = sizeBy pointerSize inner shape := by
  cases shape <;> cases shape' <;>
    simp_all [Shape.mapRefs, Shape.refs, sizeBy, Layout.mapRefs]

section

variable {store store' : TypeStore}

theorem Similar.sizeWithin_of_inner (h : Similar store store') (hall : AllCurrent store)
    (hall' : AllCurrent store') {hops : Nat}
    (hinner : ∀ r r', SameTarget store store' r r' →
      store'.innerSize hops r' = store.innerSize hops r)
    {r r' : Slot} (hr : SameTarget store store' r r') :
    store'.sizeWithin hops r' = store.sizeWithin hops r := by
  obtain ⟨_, _, _, _, _, _, hkey, hkey'⟩ := hr
  obtain ⟨slot', e, e', hlookup, he, he', -, hsame⟩ := h.lookup hkey
  obtain rfl := Option.some.inj (hlookup.symm.trans hkey')
  have hrefs := h.refs hsame (hall _ e (byKey?_eq_some.mpr ⟨r, hkey, he⟩))
    (hall' _ e' (byKey?_eq_some.mpr ⟨slot', hkey', he'⟩))
  rw [sizeWithin_eq he, sizeWithin_eq he', h.pointerSize]
  exact sizeBy_eq (congrArg Entity.shape hsame.blank) (hrefs.imp hinner) store.pointerSize

/-- References that lead to the same lead to the same size. -/
theorem Similar.sizeWithin (h : Similar store store') (hall : AllCurrent store)
    (hall' : AllCurrent store') (hops : Nat) {r r' : Slot} (hr : SameTarget store store' r r') :
    store'.sizeWithin hops r' = store.sizeWithin hops r := by
  induction hops generalizing r r' with
  | zero => exact h.sizeWithin_of_inner hall hall' (fun _ _ _ => rfl) hr
  | succ hops ih => exact h.sizeWithin_of_inner hall hall' (fun _ _ => ih) hr

end

/-! ## Stores of the same types -/

/-- Two stores with the same types. The same keys are registered, the same ones
lack a type, and the types of one key are the same in all but the slots of their
references, which lead to the same keys and kinds. -/
structure SameTypes (store store' : TypeStore) : Prop where
  keys : store'.keys = store.keys
  unresolved : store'.unresolved = store.unresolved
  types : ∀ key e, store.byKey? key = some e → ∃ e', store'.byKey? key = some e' ∧
    e'.blank = e.blank ∧ List.Forall₂ (SameTarget store store') e.refs e'.refs
  sizes : ∀ key, (store'.lookup key).bind store'.sizeOf? = (store.lookup key).bind store.sizeOf?

section

variable {store store' : TypeStore}

theorem Matches.isPlaceholder {e e' : Entity} (h : Matches store store' e e') :
    e'.shape.isPlaceholder = e.shape.isPlaceholder := by
  have hshape := congrArg (fun e => e.shape.isPlaceholder) h.blank
  simpa only [Entity.blank, Entity.mapRefs, Shape.isPlaceholder_mapRefs] using hshape

theorem Similar.unresolved (h : Similar store store') : store'.unresolved = store.unresolved := by
  unfold TypeStore.unresolved
  rw [h.keys]
  apply List.filter_congr
  intro key hmem
  obtain ⟨slot, hkey⟩ := TypeStore.mem_keys.mp hmem
  obtain ⟨slot', e, e', hkey', he, he', -, hsame⟩ := h.lookup hkey
  simp only [hkey, hkey', isPlaceholder, he, he', hsame.isPlaceholder]

theorem Similar.sizes (h : Similar store store') (hall : AllCurrent store)
    (hall' : AllCurrent store') (key : TypeKey) :
    (store'.lookup key).bind store'.sizeOf? = (store.lookup key).bind store.sizeOf? := by
  cases hkey : store.lookup key with
  | none =>
    have hnone := not_mem_keys.mp fun hmem => not_mem_keys.mpr hkey ((h.mem_keys key).mp hmem)
    rw [hnone, Option.bind_none, Option.bind_none]
  | some slot =>
    obtain ⟨slot', e, e', hkey', -, -, -, -⟩ := h.lookup hkey
    rw [hkey', Option.bind_some, Option.bind_some]
    exact h.sizeWithin hall hall' maxHops (h.sameTarget hkey hkey')

/-- Resolved stores that say the same have the same types. -/
theorem Similar.sameTypes (h : Similar store store') (hall : AllCurrent store)
    (hall' : AllCurrent store') : SameTypes store store' where
  keys := h.keys
  unresolved := h.unresolved
  sizes := h.sizes hall hall'
  types := by
    intro key e he
    obtain ⟨e', he', hsame⟩ := h.byKey? he
    exact ⟨e', he', hsame.blank, h.refs hsame (hall key e he) (hall' key e' he')⟩

end

end TypeStore

/-! ## Globals -/

/-- Two globals that differ in the slots of their types only, with slots that
stand in a relation. -/
structure SameGlobal (R : Slot → Slot → Prop) (g g' : Global) : Prop where
  address : g'.address = g.address
  size : g'.size = g.size
  key : g'.key = g.key
  type : R g.type g'.type

theorem SameGlobal.imp {R S : Slot → Slot → Prop} (hRS : ∀ r r', R r r' → S r r') {g g' : Global}
    (h : SameGlobal R g g') : SameGlobal S g g' :=
  { h with type := hRS _ _ h.type }

/-- Globals that have been read side by side. -/
structure SameReading (r r' : GlobalReading) : Prop where
  types : Similar r.types r'.types
  symbols : r'.symbols = r.symbols
  globals : List.Forall₂ (SameGlobal (SameKey r.types r'.types)) r.globals r'.globals

theorem SameReading.addRecord {r r' : GlobalReading} (h : SameReading r r') (record : Record) :
    Agree SameReading (r.addRecord record) (r'.addRecord record) := by
  have hgrows := (get_gets r.types record.dataTypeKey).grows
  have hgrows' := (get_gets r'.types record.dataTypeKey).grows
  have hglobals := h.globals.imp fun _ _ hg =>
    hg.imp fun _ _ hr => hr.extends_ hgrows.extends_ hgrows'.extends_
  have hsimilar := h.types.get record.dataTypeKey
  have htype := h.types.sameKey_get record.dataTypeKey
  unfold GlobalReading.addRecord
  apply agree_bind
  intro address
  split
  · exact .ok h
  · apply agree_bind
    intro size
    rw [h.symbols]
    split
    · exact .ok ⟨hsimilar, rfl, .cons ⟨rfl, rfl, rfl, htype⟩ hglobals⟩
    · exact .ok ⟨hsimilar, rfl, .cons ⟨rfl, rfl, rfl, htype⟩ hglobals⟩

theorem SameReading.sorted {r r' : GlobalReading} (h : SameReading r r') :
    List.Forall₂ (SameGlobal (SameKey r.types r'.types)) r.sorted r'.sorted := by
  apply forall₂_mergeSort _ (List.forall₂_reverse_iff.mpr h.globals)
  intro a b a' b' ha hb
  rw [ha.address, hb.address]

/-- A resolved reference is the slot that its key stands for. -/
theorem TypeStore.Sound.lookup_resolveSlot {store : TypeStore} (h : Sound store) {r : Slot}
    {key : TypeKey} (hr : store.keyAt? r = some key) :
    store.lookup key = some (store.resolveSlot r) := by
  obtain ⟨other, hkey, hlookup⟩ :=
    isCurrent_resolveSlot h.indexed h.noneReplaced (lt_of_keyAt? hr)
  rw [keyAt?_resolveSlot h.indexed, hr, Option.some.injEq] at hkey
  rwa [hkey]

theorem SameGlobal.resolved {store store' : TypeStore} (h : Similar store store') {g g' : Global}
    (hg : SameGlobal (SameKey store store') g g') :
    SameGlobal (SameTarget store store') { g with type := store.resolveSlot g.type }
      { g' with type := store'.resolveSlot g'.type } where
  address := hg.address
  size := hg.size
  key := hg.key
  type := by
    obtain ⟨key, hr, hr'⟩ := hg.type
    exact h.sameTarget (h.sound.lookup_resolveSlot hr) (h.sound'.lookup_resolveSlot hr')

/-! ## Places of globals -/

namespace Global

/-- The global without its type. -/
def blank (g : Global) : Global := { g with type := 0 }

theorem indexByKey_map_blank (globals : List Global) :
    indexByKey (globals.map blank) = indexByKey globals := by
  unfold indexByKey
  rw [List.zipIdx_map, List.foldl_map]
  rfl

theorem placeLe_map_blank (globals : List Global) :
    placeLe (globals.map blank) = placeLe globals := by
  funext a b
  unfold placeLe
  rw [List.getElem?_map, List.getElem?_map]
  cases globals[a]? <;> cases globals[b]? <;> rfl

variable {R : Slot → Slot → Prop} {globals globals' : List Global}

theorem map_blank_eq (h : List.Forall₂ (SameGlobal R) globals globals') :
    globals.map blank = globals'.map blank := by
  rw [← List.forall₂_eq_eq_eq, List.forall₂_map_left_iff, List.forall₂_map_right_iff]
  refine h.imp fun g g' hg => ?_
  rw [blank, blank, hg.address, hg.size, hg.key]

/-- The places of globals do not depend on their types. -/
theorem indexByKey_eq (h : List.Forall₂ (SameGlobal R) globals globals') :
    indexByKey globals' = indexByKey globals := by
  rw [← indexByKey_map_blank, ← map_blank_eq h, indexByKey_map_blank]

/-- The namespaces of globals do not depend on their types. -/
theorem ofGlobals_eq (h : List.Forall₂ (SameGlobal R) globals globals')
    (byKey : Std.ExtTreeMap TypeKey Nat) :
    NamespaceTree.ofGlobals globals' byKey = NamespaceTree.ofGlobals globals byKey := by
  unfold NamespaceTree.ofGlobals
  rw [← placeLe_map_blank, ← map_blank_eq h, placeLe_map_blank]

end Global

/-! ## The whole load -/

/-- Two programs that differ in the slots of their types only. -/
structure SameProgram (p p' : Program) : Prop where
  types : SameTypes p.types p'.types
  globals : List.Forall₂ (SameGlobal (SameTarget p.types p'.types)) p.globals p'.globals
  globalsByKey : p'.globalsByKey = p.globalsByKey
  namespaces : p'.namespaces = p.namespaces
  symbols : p'.symbols = p.symbols
  routines : p'.routines = p.routines
  routinesByKey : p'.routinesByKey = p.routinesByKey
  callStats : p'.callStats = p.callStats

theorem agree_ofExport {types types' : TypeStore} (h : Similar types types')
    (symbols : SymbolTable) {doc doc' : Export}
    (hrecords : doc'.recordsOf .definedData = doc.recordsOf .definedData) :
    Agree SameReading (GlobalReading.ofExport types symbols doc)
      (GlobalReading.ofExport types' symbols doc') := by
  unfold GlobalReading.ofExport
  rw [hrecords]
  exact agree_run (fun _ _ record hr => hr.addRecord record) _ ⟨h, rfl, .nil⟩

/-- The types of a load after its globals, with all comments read and all references
resolved. -/
abbrev GlobalReading.resolved (r : GlobalReading) (order : VisitOrder) : TypeStore :=
  (r.types.attachDirectives (order.keys r.types)).resolve.2

section

variable {r r' : GlobalReading}

/-- Comments say the same, in whatever order the keys of each store are visited. -/
theorem SameReading.attached (h : SameReading r r') (order order' : VisitOrder) :
    Similar (r.types.attachDirectives (order.keys r.types))
      (r'.types.attachDirectives (order'.keys r'.types)) :=
  attachDirectives_same h.types (order.perm r.types) (order'.perm r'.types)

/-- Slots keep their keys up to the end of the load. -/
theorem GlobalReading.keyAt?_resolved {order : VisitOrder}
    (h : Indexed (r.types.attachDirectives (order.keys r.types))) {slot : Slot} {key : TypeKey}
    (hkey : r.types.keyAt? slot = some key) : (r.resolved order).keyAt? slot = some key := by
  rw [(resolve_resolves h).places.keyAt?, keyAt?_attachDirectives _ hkey]

theorem SameReading.resolved (h : SameReading r r') (order order' : VisitOrder) :
    Similar (r.resolved order) (r'.resolved order') := (h.attached order order').resolve

theorem SameReading.sameTypes (h : SameReading r r') (order order' : VisitOrder) :
    SameTypes (r.resolved order) (r'.resolved order') := by
  have hattached := h.attached order order'
  exact (h.resolved order order').sameTypes (allCurrent_resolve hattached.sound)
    (allCurrent_resolve hattached.sound')

theorem SameReading.sameGlobals (h : SameReading r r') (order order' : VisitOrder) :
    List.Forall₂ (SameGlobal (SameTarget (r.resolved order) (r'.resolved order')))
      (r.sorted.map fun g => { g with type := (r.resolved order).resolveSlot g.type })
      (r'.sorted.map fun g => { g with type := (r'.resolved order').resolveSlot g.type }) := by
  have hattached := h.attached order order'
  have hresolved := h.resolved order order'
  rw [List.forall₂_map_left_iff, List.forall₂_map_right_iff]
  refine h.sorted.imp fun g g' hg => SameGlobal.resolved hresolved (hg.imp fun s s' hs => ?_)
  obtain ⟨key, hkey, hkey'⟩ := hs
  exact ⟨key, GlobalReading.keyAt?_resolved hattached.sound.indexed hkey,
    GlobalReading.keyAt?_resolved hattached.sound'.indexed hkey'⟩

end

/-- Loads of one set of records agree, if the order differs for records that declare
only; and each load may visit the keys of types in an order of its own. -/
theorem the_order_of_declarations_makes_no_difference (loader : Loader)
    (order order' : VisitOrder) {doc doc' : Export} (trace : Option (List UInt8))
    (hperm : doc.records.Perm doc'.records)
    (hothers : ∀ kind ∉ declaringKinds, doc'.recordsOf kind = doc.recordsOf kind)
    (honce : Once doc.declarations) :
    Agree SameProgram (Loader.load { loader with order } doc trace)
      (Loader.load { loader with order := order' } doc' trace) := by
  have hdeclarations : doc.declarations.Perm doc'.declarations :=
    List.Perm.flatMap_left _ fun kind _ => hperm.filter _
  unfold Loader.load
  apply (agree_addAll loader.config.pointerSize hdeclarations honce).bind
  intro declared declared' hdeclared
  -- The symbols do not depend on the types, so both loads read the same ones.
  have hsymbols :
      SymbolTable.ofExport loader.config doc' = SymbolTable.ofExport loader.config doc := by
    unfold SymbolTable.ofExport
    rw [hothers .symbol (by decide)]
  rw [hsymbols]
  apply agree_bind
  intro symbols
  apply (agree_ofExport hdeclared symbols (hothers .definedData (by decide))).bind
  intro read read' hread
  have hattached := hread.attached order order'
  have hresolved := hread.resolved order order'
  obtain ⟨moved, hrun⟩ := Global.run_mapM_resolve hresolved.sound.indexed read.sorted
  obtain ⟨moved', hrun'⟩ := Global.run_mapM_resolve hresolved.sound'.indexed read'.sorted
  have hroutines : RoutineReading.ofExport read'.symbols doc' =
      RoutineReading.ofExport read.symbols doc := by
    unfold RoutineReading.ofExport
    rw [hothers .function (by decide), hread.symbols]
  simp only [resolveKeys_visit hattached.sound.indexed, resolveKeys_visit hattached.sound'.indexed,
    hrun, hrun', hroutines]
  apply agree_bind
  intro entered
  have hglobals := hread.sameGlobals order order'
  have hindex := Global.indexByKey_eq hglobals
  refine .ok ⟨hread.sameTypes order order', hglobals, hindex, ?_, rfl, rfl, rfl, rfl⟩
  simp only [hindex, Global.ofGlobals_eq hglobals]

/-- A struct that holds the struct of the circle. -/
def ringRecord : Record :=
  (Record.withAttribute (.withAttribute { kind := .layout } "NAME" "ring") "SIZE" "4").withChild
    (commentedMember "first" "0" "node" "see @ptr(keeper *)")

def ringData : Record :=
  .withAttribute (.withAttribute (.withAttribute { kind := .definedData } "ADDRESS" "1000")
    "DATATYPE" "ring *") "SIZE" "4"

/-- The circle in a struct, and data that points there. -/
def ring : Export := { records := [nodeRecord, linkRecord, ringRecord, ringData] }

/-- The same records, the last first. -/
def backwardRing : Export := { records := [ringData, ringRecord, linkRecord, nodeRecord] }

/-- The keeper gets another slot, and the programs are the same. -/
theorem a_ring_loads_forward_and_backward :
    ring.records.Perm backwardRing.records ∧
      (∀ kind ∉ declaringKinds, backwardRing.recordsOf kind = ring.recordsOf kind) ∧
      Once ring.declarations ∧
      ∃ p p', Loader.load { order := .ascending } ring none = .ok p ∧
        Loader.load { order := .descending } backwardRing none = .ok p' ∧
        p'.types.lookup (.root "keeper") ≠ p.types.lookup (.root "keeper") ∧ SameProgram p p' := by
  have hperm : ring.records.Perm backwardRing.records := (List.reverse_perm _).symm
  have hothers : ∀ kind ∉ declaringKinds, backwardRing.recordsOf kind = ring.recordsOf kind := by
    intro kind hkind
    cases kind <;> first | rfl | simp [declaringKinds] at hkind
  have hkeys : ring.declarations.Pairwise fun a b => a.key ≠ b.key := by decide +kernel
  have honce : Once ring.declarations := ⟨hkeys.imp apart_of_key_ne, by decide +kernel⟩
  have hslots :
      ((Loader.load { order := .descending } backwardRing none).toOption.bind fun p =>
        p.types.lookup (.root "keeper")) ≠
      (Loader.load { order := .ascending } ring none).toOption.bind fun p =>
        p.types.lookup (.root "keeper") := by decide +kernel
  have hagree := the_order_of_declarations_makes_no_difference {} .ascending .descending none hperm
    hothers honce
  refine ⟨hperm, hothers, honce, ?_⟩
  generalize Loader.load { order := .ascending } ring none = forward at hslots hagree ⊢
  generalize Loader.load { order := .descending } backwardRing none = backward at hslots hagree ⊢
  cases hagree with
  | error => exact absurd rfl hslots
  | ok hsame => exact ⟨_, _, rfl, rfl, hslots, hsame⟩

end BinaryAtlas
