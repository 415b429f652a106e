-- The laws of the declaring stages. Whatever the order of the records, and
-- whatever has been asked for before, each key stands for a type that the
-- last record for it describes.
import BinaryAtlas.Proofs.Declarations
import BinaryAtlas.TypeGraph.Builtin

namespace BinaryAtlas

/-! ## Steps that may fail -/

theorem bind_eq_ok {ε α β : Type} {x : Except ε α} {next : α → Except ε β} {b : β} :
    x >>= next = .ok b ↔ ∃ a, x = .ok a ∧ next a = .ok b := by
  cases x <;> simp [bind, Except.bind]

/-- A run that does not fail has a result. -/
theorem exists_ok {ε α : Type} {x : Except ε α} (h : x.toOption.isSome = true) :
    ∃ a, x = .ok a := by
  cases x with
  | error fault => cases h
  | ok a => exact ⟨a, rfl⟩

/-- What each step keeps of the items so far, a run keeps of all of them. -/
theorem foldlM_invariant {ε State Item : Type} {step : State → Item → Except ε State}
    {P : List Item → State → Prop} {items : List Item}
    (hstep : ∀ done s item s', item ∈ items → P done s → step s item = .ok s' →
      P (done ++ [item]) s')
    {done : List Item} {s s' : State} (h : P done s) (hrun : items.foldlM step s = .ok s') :
    P (done ++ items) s' := by
  induction items generalizing done s with
  | nil =>
    obtain rfl := Except.ok.inj hrun
    rw [List.append_nil]
    exact h
  | cons item items ih =>
    rw [List.foldlM_cons, bind_eq_ok] at hrun
    obtain ⟨mid, hmid, hrest⟩ := hrun
    have hnext := hstep done s item mid List.mem_cons_self h hmid
    have hall := ih (fun done s item s' hi => hstep done s item s' (List.mem_cons_of_mem _ hi))
      hnext hrest
    rw [List.append_assoc] at hall
    exact hall

/-- What each step keeps, a run keeps. -/
theorem foldlM_preserves {ε State Item : Type} {step : State → Item → Except ε State}
    {P : State → Prop} {items : List Item}
    (hstep : ∀ {s item s'}, P s → step s item = .ok s' → P s') {s s' : State} (h : P s)
    (hrun : items.foldlM step s = .ok s') : P s' := by
  have hall (done : List Item) (s : State) (item : Item) (s' : State) (_ : item ∈ items) :
      P s → step s item = .ok s' → P s' := hstep
  exact @foldlM_invariant _ _ _ _ (fun _ => P) _ hall [] _ _ h hrun

/-- A run fails with the fault of its first step that fails. -/
theorem foldlM_eq_error {ε State Item : Type} {step : State → Item → Except ε State}
    {items : List Item} {s : State} {fault : ε} : items.foldlM step s = .error fault ↔
      ∃ earlier item later s', items = earlier ++ item :: later ∧
        earlier.foldlM step s = .ok s' ∧ step s' item = .error fault := by
  induction items generalizing s with
  | nil => simp [pure, Except.pure]
  | cons first items ih =>
    rw [List.foldlM_cons]
    cases hfirst : step s first with
    | error fault' =>
      constructor
      · intro h
        exact ⟨[], first, items, s, rfl, rfl, hfirst.trans h⟩
      · rintro ⟨earlier, item, later, s', hsplit, hrun, hfault⟩
        cases earlier with
        | nil =>
          obtain ⟨rfl, rfl⟩ := List.cons.inj hsplit
          obtain rfl := Except.ok.inj hrun
          exact hfirst.symm.trans hfault
        | cons _ earlier =>
          obtain ⟨rfl, rfl⟩ := List.cons.inj hsplit
          rw [List.foldlM_cons, hfirst] at hrun
          cases hrun
    | ok next =>
      have hnext : (Except.ok next >>= fun s => items.foldlM step s) = items.foldlM step next := rfl
      rw [hnext, ih]
      constructor
      · rintro ⟨earlier, item, later, s', rfl, hrun, hfault⟩
        refine ⟨first :: earlier, item, later, s', rfl, ?_, hfault⟩
        rw [List.foldlM_cons, hfirst]
        exact hrun
      · rintro ⟨earlier, item, later, s', hsplit, hrun, hfault⟩
        cases earlier with
        | nil =>
          obtain ⟨rfl, rfl⟩ := List.cons.inj hsplit
          obtain rfl := Except.ok.inj hrun
          rw [hfirst] at hfault
          cases hfault
        | cons _ earlier =>
          obtain ⟨rfl, rfl⟩ := List.cons.inj hsplit
          rw [List.foldlM_cons, hfirst] at hrun
          exact ⟨earlier, item, later, s', rfl, hrun, hfault⟩

namespace Declaration

open TypeStore

/-! ## The invariant -/

/-- Each key stands for a type that the last of the records for it describes. -/
def Declares (store : TypeStore) (records : List Record) : Prop :=
  ∀ key record, Record.lastToDeclare? records key = some record →
    ∃ e, store.byKey? key = some e ∧ Describes store record e.shape

/-- What holds between two declarations. Only builtin types are primitives, and
they can be told from types without a declaration. -/
structure Declaring (records : List Record) (store : TypeStore) : Prop where
  indexed : Indexed store
  declares : Declares store records
  primitive : ∀ {slot e}, store.entity? slot = some e → e.kind = .primitive →
    e.key ∈ Builtin.primitiveKeys
  builtin : ∀ key ∈ Builtin.primitiveKeys, ∃ e, store.byKey? key = some e ∧
    e.shape.isPlaceholder = false

theorem declares_of_grows {records : List Record} {store store' : TypeStore}
    (hgrows : Grows store store') (h : Declares store records) : Declares store' records := by
  intro key record hlast
  obtain ⟨e, he, hdescribes⟩ := h key record hlast
  exact ⟨e, hgrows.extends_.byKey? he, hdescribes.keeps fun _ _ => hgrows.extends_.keyAt?⟩

theorem declaring_of_grows {records : List Record} {store store' : TypeStore}
    (hgrows : Grows store store') (h : Declaring records store) : Declaring records store' where
  indexed := hgrows.indexed h.indexed
  declares := declares_of_grows hgrows h.declares
  primitive := by
    intro slot e he hkind
    rcases hgrows.made he with hold | hmade
    · exact h.primitive hold hkind
    · rw [hkind] at hmade
      cases hmade
  builtin := by
    intro key hkey
    obtain ⟨e, he, hp⟩ := h.builtin key hkey
    exact ⟨e, hgrows.extends_.byKey? he, hp⟩

/-- One more declaration. -/
theorem declaring_add {records : List Record} {store : TypeStore} (h : Declaring records store)
    {record : Record} {shape : Shape} (hdeclares : record.declares record.key = true)
    (hdescribes : Describes store record shape) :
    Declaring (records ++ [record]) (store.add { key := record.key, shape }).2 where
  indexed := indexed_add h.indexed _
  declares := by
    intro key last hlast
    rw [byKey?_add h.indexed]
    by_cases hkey : record.key = key
    · subst hkey
      rw [Record.lastToDeclare?_append, if_pos hdeclares, Option.some.injEq] at hlast
      subst hlast
      rw [if_pos rfl]
      exact ⟨_, rfl, hdescribes.keeps fun _ _ => keyAt?_add⟩
    · have hother : ¬ record.declares key = true := fun hk => hkey (Record.key_of_declares hk)
      rw [Record.lastToDeclare?_append, if_neg hother] at hlast
      obtain ⟨e, he, hd⟩ := h.declares key last hlast
      rw [if_neg hkey]
      exact ⟨e, he, hd.keeps fun _ _ => keyAt?_add⟩
  primitive := by
    intro slot e he hkind
    rw [entity?_add] at he
    split at he
    · obtain rfl := Option.some.inj he
      exact absurd hkind hdescribes.declared.1
    · exact h.primitive he hkind
  builtin := by
    intro key hkey
    rw [byKey?_add h.indexed]
    split
    · exact ⟨_, rfl, hdescribes.declared.2⟩
    · exact h.builtin key hkey

/-- A record that declares nothing changes nothing. -/
theorem declaring_skip {records : List Record} {store : TypeStore} (h : Declaring records store)
    {record : Record} (hskip : record.declares record.key = false) :
    Declaring (records ++ [record]) store where
  indexed := h.indexed
  declares := by
    intro key last hlast
    have hnone : ¬ record.declares key = true := by
      intro hk
      have hkey := Record.key_of_declares hk
      rw [hkey, hk] at hskip
      cases hskip
    rw [Record.lastToDeclare?_append, if_neg hnone] at hlast
    exact h.declares key last hlast
  primitive := h.primitive
  builtin := h.builtin

/-! ## The builtin types -/

theorem slots_foldl_add (es : List Entity) (store : TypeStore) :
    (es.foldl (fun store e => (store.add e).2) store).slots.toList = store.slots.toList ++ es := by
  induction es generalizing store with
  | nil => simp
  | cons e es ih =>
    rw [List.foldl_cons, ih]
    simp [add]

theorem entity?_withBuiltins (pointerSize : UInt32) (slot : Slot) :
    (withBuiltins pointerSize).entity? slot = (Builtin.entities pointerSize)[slot]? := by
  have h := slots_foldl_add (Builtin.entities pointerSize) (empty pointerSize)
  unfold entity? withBuiltins
  rw [← Array.getElem?_toList, h]
  rfl

/-- All builtin types are primitives, but for the one of text. -/
theorem mem_entities {pointerSize : UInt32} {e : Entity} (h : e ∈ Builtin.entities pointerSize) :
    e.shape.isPlaceholder = false ∧ (e.kind = .primitive → e.key ∈ Builtin.primitiveKeys) := by
  unfold Builtin.entities at h
  simp only [List.cons_append, List.mem_cons, List.mem_append, List.mem_map] at h
  rcases h with rfl | ⟨⟨name, size⟩, hrow, rfl⟩ | ⟨name, hrow, rfl⟩
  · exact ⟨rfl, nofun⟩
  · refine ⟨rfl, fun _ => List.mem_map_of_mem (List.mem_append_left _ ?_)⟩
    exact List.mem_map_of_mem (f := Prod.fst) hrow
  · exact ⟨rfl, fun _ => List.mem_map_of_mem (List.mem_append_right _ hrow)⟩

theorem declaring_withBuiltins (pointerSize : UInt32) :
    Declaring [] (withBuiltins pointerSize) where
  indexed := indexed_withBuiltins pointerSize
  declares := nofun
  primitive := by
    intro slot e he
    rw [entity?_withBuiltins] at he
    exact (mem_entities (List.mem_of_getElem? he)).2
  builtin := by
    intro key hkey
    have hi := indexed_withBuiltins pointerSize
    have hmem : ∃ e ∈ Builtin.entities pointerSize, e.key = key := by
      unfold Builtin.primitiveKeys at hkey
      simp only [List.map_append, List.mem_append, List.mem_map] at hkey
      unfold Builtin.entities
      simp only [List.cons_append, List.mem_cons, List.mem_append, List.mem_map]
      rcases hkey with ⟨name, ⟨row, hrow, rfl⟩, rfl⟩ | ⟨name, hrow, rfl⟩
      · exact ⟨_, .inr (.inl ⟨row, hrow, rfl⟩), rfl⟩
      · exact ⟨_, .inr (.inr ⟨name, hrow, rfl⟩), rfl⟩
    obtain ⟨e, he, rfl⟩ := hmem
    obtain ⟨slot, hslot⟩ := List.mem_iff_getElem?.mp he
    rw [← entity?_withBuiltins] at hslot
    obtain ⟨slot', hkey⟩ := hi.known hslot
    obtain ⟨e', he', -⟩ := hi.registered hkey
    refine ⟨e', byKey?_eq_some.mpr ⟨slot', hkey, he'⟩, ?_⟩
    rw [entity?_withBuiltins] at he'
    exact (mem_entities (List.mem_of_getElem? he')).1

/-! ## Enums -/

theorem addElement_describes {entries : List Record}
    {elements elements' : Std.ExtTreeMap UInt32 String} {entry : Record}
    (h : DescribesElements entries elements)
    (hadd : addElement elements entry = .ok elements') :
    DescribesElements (entries ++ [entry]) elements' := by
  unfold addElement at hadd
  rw [bind_eq_ok] at hadd
  obtain ⟨given, hgiven, hadd⟩ := hadd
  obtain rfl := Except.ok.inj hadd
  intro value
  rw [List.filter_append, List.getLast?_append, Std.ExtTreeMap.getElem?_insert]
  by_cases hvalue : given = value
  · subst hvalue
    simp [hgiven, Except.toOption]
  · simp [hgiven, Except.toOption, hvalue, h value]

theorem addEnum_declaring {records : List Record} {store store' : TypeStore} {record : Record}
    (hkind : record.kind = .enumeration) (h : Declaring records store)
    (hadd : addEnum store record = .ok store') : Declaring (records ++ [record]) store' := by
  unfold addEnum at hadd
  simp only [bind_eq_ok] at hadd
  obtain ⟨elements, helements, size, hsize, hadd⟩ := hadd
  obtain rfl := Except.ok.inj hadd
  have hdescribes : DescribesElements (record.childrenOf .enumEntry) elements := by
    have hempty : DescribesElements [] ∅ := fun value => by simp
    exact foldlM_invariant (fun done s entry s' _ => addElement_describes) hempty helements
  exact declaring_add h (Record.declares_of_kind hkind nofun) (.enumeration hkind hsize hdescribes)

/-! ## Type definitions -/

/-- The key of a builtin primitive never has a placeholder, so a type
definition that finds one declares its key. -/
theorem declares_of_placeholder {records : List Record} {store : TypeStore} {record : Record}
    {e : Entity} (hkind : record.kind = .typeDef) (h : Declaring records store)
    (he : store.byKey? record.key = some e) (hp : e.shape.isPlaceholder = true) :
    record.declares record.key = true := by
  cases hd : record.declares record.key with
  | true => rfl
  | false =>
    simp only [Record.declares, beq_self_eq_true, hkind, Bool.true_and, Bool.not_eq_false',
      List.contains_iff_mem] at hd
    obtain ⟨e', he', hp'⟩ := h.builtin record.key hd
    obtain rfl := Option.some.inj (he.symm.trans he')
    rw [hp] at hp'
    cases hp'

/-- Only builtin types are primitives, so a type definition that finds one
restates it. -/
theorem not_declares_of_primitive {records : List Record} {store : TypeStore} {record : Record}
    {e : Entity} (hkind : record.kind = .typeDef) (h : Declaring records store)
    (he : store.byKey? record.key = some e) (hp : e.kind = .primitive) :
    record.declares record.key = false := by
  obtain ⟨slot, hkey, hslot⟩ := byKey?_eq_some.mp he
  obtain ⟨e', he', hk⟩ := h.indexed.registered hkey
  obtain rfl := Option.some.inj (he'.symm.trans hslot)
  have hmem := h.primitive hslot hp
  rw [hk] at hmem
  simp [Record.declares, hkind, hmem]

theorem addTypedef_declaring {records : List Record} {store store' : TypeStore} {record : Record}
    (hkind : record.kind = .typeDef) (h : Declaring records store)
    (hadd : addTypedef store record = .ok store') : Declaring (records ++ [record]) store' := by
  have htarget := keyAt?_get h.indexed record.dataTypeKey
  have hfirst := (get_gets store record.dataTypeKey).grows
  -- Both requests come before the look at the key, so the store that decides
  -- is the last of three.
  unfold addTypedef at hadd
  generalize store.get record.dataTypeKey = target at hadd htarget hfirst
  obtain ⟨target, middle⟩ := target
  have hsecond := get_gets middle record.key
  simp only at hadd
  generalize middle.get record.key = existing at hadd hsecond
  obtain ⟨existing, last⟩ := existing
  have hlast := declaring_of_grows hsecond.grows (declaring_of_grows hfirst h)
  obtain ⟨e, he, -⟩ := hlast.indexed.registered hsecond.lookup
  have hby : last.byKey? record.key = some e := byKey?_eq_some.mpr ⟨existing, hsecond.lookup, he⟩
  simp only [he] at hadd
  split at hadd
  · rename_i hshape
    obtain rfl := Except.ok.inj hadd
    have hplaceholder : e.shape.isPlaceholder = true := by rw [hshape, Shape.isPlaceholder]
    exact declaring_add hlast (declares_of_placeholder hkind hlast hby hplaceholder)
      (.typedef hkind (hsecond.grows.extends_.keyAt? htarget))
  · rename_i hshape
    obtain rfl := Except.ok.inj hadd
    have hprimitive : e.kind = .primitive := by rw [Entity.kind, hshape, Shape.kind]
    exact declaring_skip hlast (not_declares_of_primitive hkind hlast hby hprimitive)
  · cases hadd

/-! ## Records inside a declaration -/

/-- What holds of each part when it is read, and goes on holding in stores that
have more, holds of all parts in the end. -/
theorem readAll_ok {Part : Type} {read : TypeStore → Record → Except Fault (Part × TypeStore)}
    {R : TypeStore → Record → Part → Prop}
    (hread : ∀ {store record part store'}, Indexed store → read store record = .ok (part, store') →
      Grows store store' ∧ R store' record part)
    (hkeep : ∀ {store store' record part}, Extends store store' → R store record part →
      R store' record part)
    {records : List Record} {store store' : TypeStore} {parts : List Part} (h : Indexed store)
    (hall : readAll read store records = .ok (parts, store')) :
    Grows store store' ∧ List.Forall₂ (R store') records parts := by
  induction records generalizing store parts with
  | nil =>
    obtain ⟨rfl, rfl⟩ := Prod.mk.inj (Except.ok.inj hall)
    exact ⟨grows_refl store, .nil⟩
  | cons record records ih =>
    unfold readAll at hall
    simp only [bind_eq_ok, Prod.exists] at hall
    obtain ⟨part, middle, hpart, rest, last, hrest, hall⟩ := hall
    obtain ⟨rfl, rfl⟩ := Prod.mk.inj (Except.ok.inj hall)
    obtain ⟨hfirst, hhead⟩ := hread h hpart
    obtain ⟨hsecond, htail⟩ := ih (hfirst.indexed h) hrest
    exact ⟨grows_trans hfirst hsecond, .cons (hkeep hsecond.extends_ hhead) htail⟩

/-! ## Signatures -/

theorem readParameter_describes {store store' : TypeStore} {record : Record} {p : Parameter}
    (h : Indexed store) (hread : readParameter store record = .ok (p, store')) :
    Grows store store' ∧ DescribesParameter store' record p := by
  unfold readParameter at hread
  simp only [bind_eq_ok] at hread
  obtain ⟨ordinal, hordinal, size, hsize, hread⟩ := hread
  obtain ⟨rfl, rfl⟩ := Prod.mk.inj (Except.ok.inj hread)
  exact ⟨(get_gets store _).grows, hordinal, rfl, hsize, keyAt?_get h _⟩

theorem resultKey_eq (record : Record) :
    resultKey record =
      ((record.firstChild? .returnType).map Record.dataTypeKey).getD (.root "void") := by
  unfold resultKey
  cases record.firstChild? .returnType <;> rfl

theorem addSignature_declaring {records : List Record} {store store' : TypeStore} {record : Record}
    (hkind : record.kind = .functionDef) (h : Declaring records store)
    (hadd : addSignature store record = .ok store') : Declaring (records ++ [record]) store' := by
  have hresult := keyAt?_get h.indexed (resultKey record)
  have hkey := congrArg some (resultKey_eq record)
  have hfirst := (get_gets store (resultKey record)).grows
  unfold addSignature at hadd
  simp only [bind_eq_ok, Prod.exists] at hadd
  obtain ⟨parameters, last, hparameters, hadd⟩ := hadd
  obtain rfl := Except.ok.inj hadd
  obtain ⟨hsecond, hdescribes⟩ := readAll_ok (R := DescribesParameter) readParameter_describes
    (fun hext hp => { hp with type := hext.keyAt? hp.type }) (hfirst.indexed h.indexed) hparameters
  have hlast := declaring_of_grows (grows_trans hfirst hsecond) h
  exact declaring_add hlast (Record.declares_of_kind hkind nofun)
    (.signature hkind (hsecond.extends_.keyAt? (hresult.trans hkey)) hdescribes)

/-! ## Structs and unions -/

theorem readMember_describes {kind : LayoutKind} {store store' : TypeStore} {record : Record}
    {m : Member} (h : Indexed store) (hread : readMember kind store record = .ok (m, store')) :
    Grows store store' ∧ DescribesMember kind store' record m := by
  unfold readMember at hread
  simp only [bind_eq_ok] at hread
  obtain ⟨offset, hoffset, size, hsize, hread⟩ := hread
  obtain ⟨rfl, rfl⟩ := Prod.mk.inj (Except.ok.inj hread)
  exact ⟨(get_gets store _).grows, rfl, hoffset, hsize, rfl, keyAt?_get h _⟩

theorem addLayout_declaring {kind : LayoutKind} {records : List Record} {store store' : TypeStore}
    {record : Record} (hkind : record.kind = kind.recordKind) (h : Declaring records store)
    (hadd : addLayout kind store record = .ok store') : Declaring (records ++ [record]) store' := by
  unfold addLayout at hadd
  simp only [bind_eq_ok, Prod.exists] at hadd
  obtain ⟨members, last, hmembers, size, hsize, hadd⟩ := hadd
  obtain rfl := Except.ok.inj hadd
  obtain ⟨hgrows, hdescribes⟩ := readAll_ok (R := DescribesMember kind) readMember_describes
    (fun hext hm => { hm with type := hext.keyAt? hm.type }) h.indexed hmembers
  apply declaring_add (declaring_of_grows hgrows h)
  · exact Record.declares_of_kind hkind (by cases kind <;> nofun)
  cases kind with
  | struct => exact .struct hkind ⟨hsize, hdescribes⟩
  | union => exact .union hkind ⟨hsize, hdescribes⟩

/-! ## All stages -/

/-- One stage: all records of a kind. -/
theorem declaring_stage {doc : Export} {kind : RecordKind} {records : List Record}
    {add : TypeStore → Record → Except Fault TypeStore} {store store' : TypeStore}
    (hadd : ∀ {records store store' record}, record.kind = kind → Declaring records store →
      add store record = .ok store' → Declaring (records ++ [record]) store')
    (h : Declaring records store) (hrun : (doc.recordsOf kind).foldlM add store = .ok store') :
    Declaring (records ++ doc.recordsOf kind) store' := by
  refine foldlM_invariant (fun done s record s' hmem hs hstep => hadd ?_ hs hstep) h hrun
  exact beq_iff_eq.mp (List.mem_filter.mp hmem).2

theorem addAll_declaring {doc : Export} {pointerSize : UInt32} {store : TypeStore}
    (h : addAll (.withBuiltins pointerSize) doc = .ok store) :
    Declaring doc.declarations store := by
  unfold addAll addLayouts at h
  simp only [bind_eq_ok] at h
  obtain ⟨enums, henums, typedefs, htypedefs, signatures, hsignatures, structs, hstructs, h⟩ := h
  have h₁ := declaring_stage addEnum_declaring (declaring_withBuiltins pointerSize) henums
  have h₂ := declaring_stage addTypedef_declaring h₁ htypedefs
  have h₃ := declaring_stage addSignature_declaring h₂ hsignatures
  have h₄ := declaring_stage addLayout_declaring h₃ hstructs
  have h₅ := declaring_stage addLayout_declaring h₄ h
  simpa [Export.declarations, LayoutKind.recordKind] using h₅

end Declaration

end BinaryAtlas
