-- The laws of standing declarations. If every key is declared once, each record
-- adds its type over a placeholder or over nothing, so after any of the records
-- each key stands for what its record declares, or for a builtin type, or for
-- what the key itself spells.
import BinaryAtlas.Proofs.Declared
import BinaryAtlas.Proofs.SameView
import Mathlib.Data.List.Pairwise

namespace BinaryAtlas

namespace Declaration

open TypeStore

/-! ## One record -/

/-- The store with the declaration of a record, whatever its kind. -/
def addRecord (store : TypeStore) (record : Record) : Except Fault TypeStore :=
  match record.kind with
  | .enumeration => addEnum store record
  | .typeDef => addTypedef store record
  | .functionDef => addSignature store record
  | .layout => addLayout .struct store record
  | .union => addLayout .union store record
  | _ => .ok store

/-- The stages of all declarations are one run over the records that declare. -/
theorem addAll_eq (store : TypeStore) (doc : Export) :
    addAll store doc = doc.declarations.foldlM addRecord store := by
  have hstage {kind : RecordKind} {add : TypeStore → Record → Except Fault TypeStore}
      (hadd : ∀ store record, record.kind = kind → addRecord store record = add store record)
      (store : TypeStore) :
      (doc.recordsOf kind).foldlM add store = (doc.recordsOf kind).foldlM addRecord store := by
    have hkind : ∀ record ∈ doc.recordsOf kind, record.kind = kind :=
      fun record hrecord => beq_iff_eq.mp (List.mem_filter.mp hrecord).2
    generalize doc.recordsOf kind = records at hkind
    induction records generalizing store with
    | nil => rfl
    | cons record records ih =>
      rw [List.foldlM_cons, List.foldlM_cons, hadd store record (hkind record List.mem_cons_self)]
      congr 1
      funext store
      exact ih store fun r hr => hkind r (List.mem_cons_of_mem _ hr)
  have henums := @hstage .enumeration addEnum fun _ _ h => by simp only [addRecord, h]
  have htypedefs := @hstage .typeDef addTypedef fun _ _ h => by simp only [addRecord, h]
  have hsignatures := @hstage .functionDef addSignature fun _ _ h => by simp only [addRecord, h]
  have hstructs := @hstage .layout (addLayout .struct) fun _ _ h => by simp only [addRecord, h]
  have hunions := @hstage .union (addLayout .union) fun _ _ h => by simp only [addRecord, h]
  unfold addAll addLayouts
  simp only [Export.declarations, List.flatMap_cons, List.flatMap_nil, List.append_nil,
    List.foldlM_append, LayoutKind.recordKind, henums, htypedefs, hsignatures, hstructs, hunions]

/-- A type definition looks at its key after both requests. -/
theorem addTypedef_eq {store last : TypeStore} {record : Record} {e : Entity}
    (hlast : store.askAll [record.dataTypeKey, record.key] = last)
    (he : last.byKey? record.key = some e) :
    addTypedef store record =
      match e.shape with
      | .placeholder =>
        .ok (last.add { key := record.key, shape := .typedef (store.get record.dataTypeKey).1 }).2
      | .primitive _ => .ok last
      | _ => .error (.conflictingDeclaration record.key e.kind e.key) := by
  subst hlast
  have hkey := (get_gets (store.get record.dataTypeKey).2 record.key).lookup
  have hslot : ((store.get record.dataTypeKey).2.get record.key).2.entity?
      ((store.get record.dataTypeKey).2.get record.key).1 = some e := by
    have hby : (((store.get record.dataTypeKey).2.get record.key).2.lookup record.key).bind
        ((store.get record.dataTypeKey).2.get record.key).2.entity? = some e := he
    rwa [hkey, Option.bind_some] at hby
  unfold addTypedef
  simp only [hslot]
  rfl

/-! ## What a record asks for -/

/-- The keys that the declaration of a record asks for. -/
def asked (record : Record) : List TypeKey :=
  match record.kind with
  | .typeDef => [record.dataTypeKey, record.key]
  | .functionDef => resultKey record :: (record.childrenOf .parameter).map Record.dataTypeKey
  | .layout => (record.childrenOf .member).map Record.dataTypeKey
  | .union => (record.childrenOf .member).map Record.dataTypeKey
  | _ => []

/-- Parts that each ask for one type ask for all of them. -/
theorem readAll_asks {Part : Type} {read : TypeStore → Record → Except Fault (Part × TypeStore)}
    {P : Part → Prop}
    (hread : ∀ {store record part store'}, read store record = .ok (part, store') →
      store' = (store.get record.dataTypeKey).2 ∧ P part)
    {records : List Record} {store store' : TypeStore} {parts : List Part}
    (hall : readAll read store records = .ok (parts, store')) :
    store' = store.askAll (records.map Record.dataTypeKey) ∧ ∀ part ∈ parts, P part := by
  induction records generalizing store parts with
  | nil =>
    obtain ⟨rfl, rfl⟩ := Prod.mk.inj (Except.ok.inj hall)
    exact ⟨rfl, nofun⟩
  | cons record records ih =>
    unfold readAll at hall
    simp only [bind_eq_ok, Prod.exists] at hall
    obtain ⟨part, middle, hpart, rest, last, hrest, hall⟩ := hall
    obtain ⟨rfl, rfl⟩ := Prod.mk.inj (Except.ok.inj hall)
    obtain ⟨rfl, hfirst⟩ := hread hpart
    obtain ⟨rfl, hothers⟩ := ih hrest
    exact ⟨rfl, List.forall_mem_cons.mpr ⟨hfirst, hothers⟩⟩

/-- No member has a directive. -/
def Bare (shape : Shape) : Prop :=
  ∀ layout, shape.layout? = some layout → ∀ m ∈ layout.members, m.directives = []

theorem bare_of_layout?_none {shape : Shape} (h : shape.layout? = none) : Bare shape := by
  intro layout hlayout
  rw [h] at hlayout
  cases hlayout

/-- The declaration of a record asks for types and adds one of its own. -/
def Adds (store : TypeStore) (record : Record) (store' : TypeStore) : Prop :=
  ∃ shape, Bare shape ∧
    store' = ((store.askAll (asked record)).add { key := record.key, shape }).2

section

variable {store store' : TypeStore} {record : Record}

theorem readParameter_asks {p : Parameter} (h : readParameter store record = .ok (p, store')) :
    store' = (store.get record.dataTypeKey).2 ∧ True := by
  unfold readParameter at h
  simp only [bind_eq_ok] at h
  obtain ⟨ordinal, -, size, -, h⟩ := h
  obtain ⟨-, rfl⟩ := Prod.mk.inj (Except.ok.inj h)
  exact ⟨rfl, trivial⟩

theorem readMember_asks {kind : LayoutKind} {m : Member}
    (h : readMember kind store record = .ok (m, store')) :
    store' = (store.get record.dataTypeKey).2 ∧ m.directives = [] := by
  unfold readMember at h
  simp only [bind_eq_ok] at h
  obtain ⟨offset, -, size, -, h⟩ := h
  obtain ⟨rfl, rfl⟩ := Prod.mk.inj (Except.ok.inj h)
  exact ⟨rfl, rfl⟩

theorem addEnum_adds (hkind : record.kind = .enumeration)
    (h : addEnum store record = .ok store') : Adds store record store' := by
  unfold addEnum at h
  simp only [bind_eq_ok] at h
  obtain ⟨elements, -, size, -, h⟩ := h
  obtain rfl := Except.ok.inj h
  refine ⟨.enumeration size elements, bare_of_layout?_none rfl, ?_⟩
  simp only [asked, hkind]
  rfl

theorem addSignature_adds (hkind : record.kind = .functionDef)
    (h : addSignature store record = .ok store') : Adds store record store' := by
  unfold addSignature at h
  simp only [bind_eq_ok, Prod.exists] at h
  obtain ⟨parameters, last, hall, h⟩ := h
  obtain rfl := Except.ok.inj h
  obtain ⟨rfl, -⟩ := readAll_asks readParameter_asks hall
  refine ⟨.signature (store.get (resultKey record)).1 parameters, bare_of_layout?_none rfl, ?_⟩
  simp only [asked, hkind]
  rfl

theorem addLayout_adds {kind : LayoutKind} (hkind : record.kind = kind.recordKind)
    (h : addLayout kind store record = .ok store') : Adds store record store' := by
  unfold addLayout at h
  simp only [bind_eq_ok, Prod.exists] at h
  obtain ⟨members, last, hall, size, -, h⟩ := h
  obtain rfl := Except.ok.inj h
  obtain ⟨rfl, hbare⟩ := readAll_asks readMember_asks hall
  refine ⟨kind.shape { size, members }, ?_, ?_⟩
  · intro layout hlayout
    cases kind <;> obtain rfl := Option.some.inj hlayout <;> exact hbare
  · cases kind <;> simp only [asked, hkind, LayoutKind.recordKind]

end

/-! ## Keys that are declared once -/

/-- The keys of the builtin types. -/
def builtinKeys : List TypeKey := stringKey :: Builtin.primitiveKeys

/-- The two records declare no key both. -/
def Apart (a b : Record) : Prop := ∀ key, a.declares key = true → b.declares key = false

instance : Std.Symm Apart where
  symm := by
    intro a b h key hb
    cases ha : a.declares key with
    | false => rfl
    | true =>
      rw [h key ha] at hb
      cases hb

/-- Records of two keys declare nothing both. -/
theorem apart_of_key_ne {a b : Record} (h : a.key ≠ b.key) : Apart a b := by
  intro key ha
  cases hb : b.declares key with
  | false => rfl
  | true => exact absurd ((Record.key_of_declares ha).trans (Record.key_of_declares hb).symm) h

/-- No two records declare the same key, and only type definitions may have the
key of a builtin type, of a pointer or of an array. -/
structure Once (records : List Record) : Prop where
  apart : records.Pairwise Apart
  plain : ∀ record ∈ records, record.kind ≠ .typeDef →
    record.key ∉ builtinKeys ∧ record.key.inner? = none

theorem lastToDeclare?_eq_none {records : List Record} {key : TypeKey} :
    Record.lastToDeclare? records key = none ↔ ∀ record ∈ records, record.declares key = false := by
  unfold Record.lastToDeclare?
  simp

theorem of_lastToDeclare? {records : List Record} {key : TypeKey} {record : Record}
    (h : Record.lastToDeclare? records key = some record) :
    record ∈ records ∧ record.declares key = true :=
  List.mem_filter.mp (List.mem_of_getLast? h)

section

variable {records records' done rest : List Record} {record : Record}

theorem Once.perm (h : Once records) (hperm : records.Perm records') : Once records' where
  apart := (hperm.pairwise_iff fun {_ _} hab => Std.Symm.symm _ _ hab).mp h.apart
  plain r hr := h.plain r (hperm.mem_iff.mpr hr)

/-- No earlier record declares the key of a later one. -/
theorem Once.fresh (h : Once (done ++ record :: rest)) :
    Record.lastToDeclare? done record.key = none := by
  rw [lastToDeclare?_eq_none]
  intro r hr
  cases hself : record.declares record.key with
  | true =>
    have hpair := (List.pairwise_append.mp h.apart).2.2 r hr record List.mem_cons_self
    exact Std.Symm.symm _ _ hpair _ hself
  | false =>
    -- The later record restates a builtin primitive, which no record declares.
    simp only [Record.declares, beq_self_eq_true, Bool.true_and, Bool.not_eq_false',
      Bool.and_eq_true, beq_iff_eq, List.contains_iff_mem] at hself
    cases hdeclares : r.declares record.key with
    | false => rfl
    | true =>
      have hkey := Record.key_of_declares hdeclares
      by_cases hkind : r.kind = .typeDef
      · simp [Record.declares, hkind, hself.2] at hdeclares
      · have hplain := (h.plain r (List.mem_append_left _ hr) hkind).1
        rw [hkey] at hplain
        exact absurd (List.mem_cons_of_mem _ hself.2) hplain

/-- The order of the records makes no difference to which one declares a key. -/
theorem Once.lastToDeclare?_perm (h : Once records) (hperm : records.Perm records')
    (key : TypeKey) : Record.lastToDeclare? records' key = Record.lastToDeclare? records key := by
  cases hlast : Record.lastToDeclare? records key with
  | none =>
    rw [lastToDeclare?_eq_none] at hlast ⊢
    exact fun r hr => hlast r (hperm.mem_iff.mpr hr)
  | some record =>
    obtain ⟨hmem, hdeclares⟩ := of_lastToDeclare? hlast
    cases hlast' : Record.lastToDeclare? records' key with
    | none =>
      rw [lastToDeclare?_eq_none.mp hlast' record (hperm.mem_iff.mp hmem)] at hdeclares
      cases hdeclares
    | some record' =>
      obtain ⟨hmem', hdeclares'⟩ := of_lastToDeclare? hlast'
      by_contra hne
      have hother := h.apart.forall (hperm.mem_iff.mpr hmem') hmem
        (fun heq => hne (congrArg some heq)) key hdeclares'
      rw [hdeclares] at hother
      cases hother

end

/-! ## The builtin types -/

theorem mem_keys_foldl_add {es : List Entity} {store : TypeStore} {key : TypeKey} :
    key ∈ (es.foldl (fun store e => (store.add e).2) store).keys ↔
      key ∈ store.keys ∨ key ∈ es.map Entity.key := by
  induction es generalizing store with
  | nil => simp
  | cons e es ih =>
    rw [List.foldl_cons, ih, mem_keys_add, List.map_cons, List.mem_cons, or_assoc]

theorem map_key_entities (pointerSize : UInt32) :
    (Builtin.entities pointerSize).map Entity.key = builtinKeys := rfl

theorem mem_keys_withBuiltins {pointerSize : UInt32} {key : TypeKey} :
    key ∈ (withBuiltins pointerSize).keys ↔ key ∈ builtinKeys := by
  have hempty : key ∉ (empty pointerSize).keys := by
    rw [not_mem_keys]
    exact Std.ExtTreeMap.getElem?_empty
  rw [withBuiltins, mem_keys_foldl_add, map_key_entities]
  simp [hempty]

/-- No builtin type replaces another one. -/
theorem noneReplaced_withBuiltins (pointerSize : UInt32) :
    NoneReplaced (withBuiltins pointerSize) := by
  apply withBuiltins_induction
  · intro slot e he
    simp [empty, entity?] at he
  · exact fun _ _ h _ hnew => noneReplaced_add_new h hnew

/-- The key of a builtin type spells no other. -/
theorem inner?_of_mem_builtinKeys {key : TypeKey} (h : key ∈ builtinKeys) : key.inner? = none := by
  have hall : (builtinKeys.all fun key => key.inner?.isNone) = true := by decide +kernel
  exact Option.isNone_iff_eq_none.mp (List.all_eq_true.mp hall key h)

theorem sound_withBuiltins (pointerSize : UInt32) : Sound (withBuiltins pointerSize) where
  indexed := indexed_withBuiltins pointerSize
  closed := closed_withBuiltins pointerSize
  innerKnown := by
    intro key inner count hinner hkey
    rw [inner?_of_mem_builtinKeys (mem_keys_withBuiltins.mp hkey)] at hinner
    cases hinner
  noneReplaced := noneReplaced_withBuiltins pointerSize

theorem mem_entities_of_byKey? {pointerSize : UInt32} {key : TypeKey} {e : Entity}
    (h : (withBuiltins pointerSize).byKey? key = some e) : e ∈ Builtin.entities pointerSize := by
  obtain ⟨slot, -, he⟩ := byKey?_eq_some.mp h
  rw [entity?_withBuiltins] at he
  exact List.mem_of_getElem? he

theorem mem_builtinKeys_of_byKey? {pointerSize : UInt32} {key : TypeKey} {e : Entity}
    (h : (withBuiltins pointerSize).byKey? key = some e) : key ∈ builtinKeys :=
  mem_keys_withBuiltins.mp ((mem_keys_iff_byKey? (indexed_withBuiltins pointerSize)).mpr ⟨e, h⟩)

theorem layout?_of_mem_entities {pointerSize : UInt32} {e : Entity}
    (h : e ∈ Builtin.entities pointerSize) : e.shape.layout? = none := by
  rw [Builtin.entities, List.mem_append, List.mem_cons, List.mem_map, List.mem_map] at h
  rcases h with (rfl | ⟨row, -, rfl⟩) | ⟨name, -, rfl⟩
  · rfl
  · rfl
  · rfl

/-! ## What stands after some records -/

/-- What holds after the declarations of some records, which asked for some
keys on the way: each key stands for what the last record for it declares, or
for a builtin type, or for what it spells. -/
structure Standing (pointerSize : UInt32) (records : List Record) (keys : List TypeKey)
    (store : TypeStore) : Prop where
  declaring : Declaring records store
  sound : Sound store
  pointers : store.pointerSize = pointerSize
  bare : ∀ key e, store.byKey? key = some e → Bare e.shape
  registered : ∀ key, key ∈ store.keys ↔ key ∈ builtinKeys ∨
    (∃ record ∈ records, record.declares key = true) ∨ ∃ k ∈ keys, k.Spells key
  undeclared : ∀ key e, store.byKey? key = some e → Record.lastToDeclare? records key = none →
    (withBuiltins pointerSize).byKey? key = some e ∨
      key ∉ builtinKeys ∧ SpelledAs store key e.shape

theorem standing_withBuiltins (pointerSize : UInt32) :
    Standing pointerSize [] [] (withBuiltins pointerSize) where
  declaring := declaring_withBuiltins pointerSize
  sound := sound_withBuiltins pointerSize
  pointers := pointerSize_withBuiltins pointerSize
  bare key e he := bare_of_layout?_none (layout?_of_mem_entities (mem_entities_of_byKey? he))
  registered := by
    intro key
    rw [mem_keys_withBuiltins]
    simp
  undeclared key e he _ := .inl he

section

variable {pointerSize : UInt32} {records : List Record} {keys : List TypeKey} {store : TypeStore}

/-- Requests add what their keys spell. -/
theorem Standing.asks (h : Standing pointerSize records keys store) (more : List TypeKey) :
    Standing pointerSize records (keys ++ more) (store.askAll more) := by
  have hasked := askAll_requested h.sound.indexed h.sound.innerKnown more
  have hold {key : TypeKey} (hkey : key ∈ store.keys) {e : Entity}
      (he : (store.askAll more).byKey? key = some e) : store.byKey? key = some e := by
    obtain ⟨e', he'⟩ := (mem_keys_iff_byKey? h.sound.indexed).mp hkey
    rw [he', ← he, hasked.grows.extends_.byKey? he']
  refine ⟨declaring_of_grows hasked.grows h.declaring, hasked.sound h.sound,
    hasked.grows.extends_.pointerSize.trans h.pointers, ?_, ?_, ?_⟩
  · intro key e he
    by_cases hkey : key ∈ store.keys
    · exact h.bare key e (hold hkey he)
    · exact bare_of_layout?_none (hasked.made key e he hkey).layout?
  · intro key
    rw [hasked.keys, h.registered]
    simp only [List.mem_append, or_assoc, or_and_right, exists_or]
  · intro key e he hlast
    by_cases hkey : key ∈ store.keys
    · refine (h.undeclared key e (hold hkey he) hlast).imp_right fun ⟨hbuiltin, hspelled⟩ => ?_
      exact ⟨hbuiltin, hspelled.keeps fun _ _ => hasked.grows.extends_.keyAt?⟩
    · refine .inr ⟨fun hbuiltin => hkey ?_, hasked.made key e he hkey⟩
      exact (h.registered key).mpr (.inl hbuiltin)

variable {record : Record} {shape : Shape}

/-- The references of what a record declares are slots. -/
theorem Describes.refs_lt (h : Describes store record shape) (hbare : Bare shape) :
    ∀ r ∈ shape.refs, r < store.slots.size := by
  have hlayout {kind : LayoutKind} {layout : Layout} (hl : DescribesLayout kind store record layout)
      (hnone : ∀ m ∈ layout.members, m.directives = []) :
      ∀ r ∈ layout.members.flatMap Member.refs, r < store.slots.size := by
    intro r hr
    obtain ⟨m, hm, hr⟩ := List.mem_flatMap.mp hr
    rw [Member.refs, hnone m hm, List.filterMap_nil, List.nil_append, List.mem_singleton] at hr
    obtain ⟨_, -, hone⟩ := exists_of_forall₂ hl.members hm
    rw [hr]
    exact lt_of_keyAt? hone.type
  cases h with
  | enumeration => exact fun _ hr => absurd hr List.not_mem_nil
  | typedef _ htarget =>
    intro r hr
    obtain rfl := List.mem_singleton.mp hr
    exact lt_of_keyAt? htarget
  | signature _ hresult hparameters =>
    intro r hr
    rcases List.mem_cons.mp hr with rfl | hr
    · exact lt_of_keyAt? hresult
    · obtain ⟨p, hp, rfl⟩ := List.mem_map.mp hr
      obtain ⟨_, -, hone⟩ := exists_of_forall₂ hparameters hp
      exact lt_of_keyAt? hone.type
  | struct _ hl => exact hlayout hl (hbare _ rfl)
  | union _ hl => exact hlayout hl (hbare _ rfl)

/-- A record adds a type under a key that had none of its own. -/
theorem Standing.adds (h : Standing pointerSize records keys store)
    (hdeclaring : Declaring (records ++ [record]) (store.add { key := record.key, shape }).2)
    (hdeclares : record.declares record.key = true) (hinner : record.key.inner? = none)
    (hbare : Bare shape)
    (hold : ∀ old, store.byKey? record.key = some old → old.shape.isPlaceholder = true) :
    Standing pointerSize (records ++ [record]) keys (store.add { key := record.key, shape }).2 := by
  have hi := h.sound.indexed
  have hlast : Record.lastToDeclare? (records ++ [record]) record.key = some record := by
    rw [Record.lastToDeclare?_append, if_pos hdeclares]
  have hiff (key : TypeKey) : record.declares key = true ↔ key = record.key := by
    constructor
    · exact fun hkey => (Record.key_of_declares hkey).symm
    · rintro rfl
      exact hdeclares
  refine ⟨hdeclaring, ⟨hdeclaring.indexed, ?_, innerKnown_add h.sound.innerKnown ?_,
    noneReplaced_add h.sound.noneReplaced hold⟩, h.pointers, ?_, ?_, ?_⟩
  · obtain ⟨e, he, hdescribes⟩ := hdeclaring.declares _ _ hlast
    rw [byKey?_add hi, if_pos rfl] at he
    obtain rfl := Option.some.inj he
    intro slot e he r hr
    rw [entity?_add] at he
    split at he
    · obtain rfl := Option.some.inj he
      exact hdescribes.refs_lt hbare r hr
    · rw [size_slots_add]
      exact Nat.lt_succ_of_lt (h.sound.closed slot e he r hr)
  · intro inner count hsome
    simp only [hinner] at hsome
    cases hsome
  · intro key e he
    rw [byKey?_add hi] at he
    split at he
    · obtain rfl := Option.some.inj he
      exact hbare
    · exact h.bare key e he
  · intro key
    rw [mem_keys_add, h.registered]
    simp only [List.mem_append, List.mem_singleton, or_and_right, exists_or, exists_eq_left, hiff]
    rw [or_assoc, or_right_comm]
  · intro key e he hnone
    rw [byKey?_add hi] at he
    split at he
    · rename_i hkey
      obtain rfl : record.key = key := hkey
      rw [hlast] at hnone
      cases hnone
    · rename_i hkey
      have hother : ¬ record.declares key = true := fun hk => hkey ((hiff key).mp hk).symm
      rw [Record.lastToDeclare?_append, if_neg hother] at hnone
      refine (h.undeclared key e he hnone).imp_right fun ⟨hbuiltin, hspelled⟩ => ?_
      exact ⟨hbuiltin, hspelled.keeps fun _ _ => keyAt?_add⟩

/-- A record that declares nothing changes nothing. -/
theorem Standing.skips (h : Standing pointerSize records keys store)
    (hskip : record.declares record.key = false) :
    Standing pointerSize (records ++ [record]) keys store := by
  have hnone (key : TypeKey) : ¬ record.declares key = true := by
    intro hkey
    obtain rfl := Record.key_of_declares hkey
    rw [hskip] at hkey
    cases hkey
  refine { h with
    declaring := declaring_skip h.declaring hskip
    registered := ?_
    undeclared := ?_ }
  · intro key
    rw [h.registered]
    simp [or_and_right, exists_or, hnone]
  · intro key e he hlast
    rw [Record.lastToDeclare?_append, if_neg (hnone key)] at hlast
    exact h.undeclared key e he hlast

/-! ## One record more -/

/-- What a type definition finds under a key that no record has declared: a
builtin type, or what the key spells. -/
theorem Standing.found (h : Standing pointerSize records keys store)
    (hfresh : Record.lastToDeclare? records record.key = none) :
    ∃ e, (store.askAll [record.dataTypeKey, record.key]).byKey? record.key = some e ∧
      ((withBuiltins pointerSize).byKey? record.key = some e ∨ record.key ∉ builtinKeys ∧
        SpelledAs (store.askAll [record.dataTypeKey, record.key]) record.key e.shape) := by
  have hasked := h.asks [record.dataTypeKey, record.key]
  have hmem : record.key ∈ (store.askAll [record.dataTypeKey, record.key]).keys :=
    (hasked.registered _).mpr (.inr (.inr ⟨record.key, by simp, .refl _⟩))
  obtain ⟨e, he⟩ := (mem_keys_iff_byKey? hasked.sound.indexed).mp hmem
  exact ⟨e, he, hasked.undeclared _ e he hfresh⟩

theorem inner?_of_spelledAs_placeholder {key : TypeKey} (h : SpelledAs store key .placeholder) :
    key.inner? = none := by
  unfold SpelledAs at h
  split at h
  · assumption
  · rename_i count _
    obtain ⟨slot, hshape, -⟩ := h
    cases count <;> cases hshape

theorem standing_addTypedef {store' : TypeStore} (hkind : record.kind = .typeDef)
    (hfresh : Record.lastToDeclare? records record.key = none)
    (h : Standing pointerSize records keys store) (hadd : addTypedef store record = .ok store') :
    Standing pointerSize (records ++ [record]) (keys ++ asked record) store' := by
  have hdeclaring := addTypedef_declaring hkind h.declaring hadd
  have hasked := h.asks [record.dataTypeKey, record.key]
  have hkeys : asked record = [record.dataTypeKey, record.key] := by simp only [asked, hkind]
  obtain ⟨e, he, hfound⟩ := h.found hfresh
  rw [addTypedef_eq rfl he] at hadd
  rw [hkeys]
  split at hadd
  · rename_i hshape
    obtain rfl := Except.ok.inj hadd
    have hp : e.shape.isPlaceholder = true := by rw [hshape, Shape.isPlaceholder]
    have hinner : record.key.inner? = none := by
      rcases hfound with hbuiltin | ⟨-, hspelled⟩
      · rw [(mem_entities (mem_entities_of_byKey? hbuiltin)).1] at hp
        cases hp
      · rw [hshape] at hspelled
        exact inner?_of_spelledAs_placeholder hspelled
    have hdeclares := declares_of_placeholder hkind hasked.declaring he hp
    apply hasked.adds hdeclaring hdeclares hinner (bare_of_layout?_none rfl)
    intro old hold
    obtain rfl := Option.some.inj (he.symm.trans hold)
    exact hp
  · rename_i hshape
    obtain rfl := Except.ok.inj hadd
    have hprimitive : e.kind = .primitive := by rw [Entity.kind, hshape, Shape.kind]
    exact hasked.skips (not_declares_of_primitive hkind hasked.declaring he hprimitive)
  · cases hadd

/-- The kinds of the records that declare. -/
def declaringKinds : List RecordKind := [.enumeration, .typeDef, .functionDef, .layout, .union]

/-- A record that is no type definition adds its type over a placeholder or
nothing. -/
theorem standing_of_adds {store' : TypeStore}
    (hfresh : Record.lastToDeclare? records record.key = none)
    (hplain : record.key ∉ builtinKeys ∧ record.key.inner? = none)
    (hdeclares : record.declares record.key = true)
    (h : Standing pointerSize records keys store)
    (hdeclaring : Declaring (records ++ [record]) store') (hadds : Adds store record store') :
    Standing pointerSize (records ++ [record]) (keys ++ asked record) store' := by
  obtain ⟨shape, hbare, rfl⟩ := hadds
  have hasked := h.asks (asked record)
  apply hasked.adds hdeclaring hdeclares hplain.2 hbare
  intro old hold
  rcases hasked.undeclared _ old hold hfresh with hbuiltin | ⟨-, hspelled⟩
  · exact absurd (mem_builtinKeys_of_byKey? hbuiltin) hplain.1
  · unfold SpelledAs at hspelled
    rw [hplain.2] at hspelled
    rw [hspelled, Shape.isPlaceholder]

theorem standing_addRecord {store' : TypeStore} {done rest : List Record}
    (honce : Once (done ++ record :: rest)) (hkind : record.kind ∈ declaringKinds)
    (h : Standing pointerSize done keys store) (hadd : addRecord store record = .ok store') :
    Standing pointerSize (done ++ [record]) (keys ++ asked record) store' := by
  have hother (hnot : record.kind ≠ .typeDef) (hdeclaring : Declaring (done ++ [record]) store')
      (hadds : Adds store record store') :
      Standing pointerSize (done ++ [record]) (keys ++ asked record) store' :=
    standing_of_adds honce.fresh
      (honce.plain record (List.mem_append_right _ List.mem_cons_self) hnot)
      (Record.declares_of_kind rfl hnot) h hdeclaring hadds
  unfold addRecord at hadd
  simp only [declaringKinds, List.mem_cons, List.not_mem_nil, or_false] at hkind
  rcases hkind with hkind | hkind | hkind | hkind | hkind <;> simp only [hkind] at hadd
  · exact hother (by simp [hkind]) (addEnum_declaring hkind h.declaring hadd)
      (addEnum_adds hkind hadd)
  · exact standing_addTypedef hkind honce.fresh h hadd
  · exact hother (by simp [hkind]) (addSignature_declaring hkind h.declaring hadd)
      (addSignature_adds hkind hadd)
  · exact hother (by simp [hkind]) (@addLayout_declaring .struct _ _ _ _ hkind h.declaring hadd)
      (@addLayout_adds _ _ _ .struct hkind hadd)
  · exact hother (by simp [hkind]) (@addLayout_declaring .union _ _ _ _ hkind h.declaring hadd)
      (@addLayout_adds _ _ _ .union hkind hadd)

/-- All records of a run. -/
theorem standing_foldlM {store' : TypeStore} {done rest : List Record}
    (honce : Once (done ++ rest)) (hkinds : ∀ record ∈ rest, record.kind ∈ declaringKinds)
    (h : Standing pointerSize done keys store) (hrun : rest.foldlM addRecord store = .ok store') :
    Standing pointerSize (done ++ rest) (keys ++ rest.flatMap asked) store' := by
  induction rest generalizing done keys store with
  | nil =>
    obtain rfl := Except.ok.inj hrun
    simpa using h
  | cons record rest ih =>
    rw [List.foldlM_cons, bind_eq_ok] at hrun
    obtain ⟨middle, hfirst, hrest⟩ := hrun
    have hstep := standing_addRecord honce (hkinds record List.mem_cons_self) h hfirst
    have hall := ih (by simpa using honce) (fun r hr => hkinds r (List.mem_cons_of_mem _ hr)) hstep
      hrest
    simpa using hall

end

end Declaration

end BinaryAtlas
