-- The laws of the order of declarations. If every key is declared once, the
-- order of the records makes no difference to what the declarations come to:
-- a record fails in every order or in none, and the stores say the same.
import BinaryAtlas.Proofs.Standing

namespace BinaryAtlas

/-! ## Outcomes that agree -/

/-- Two runs that both fail, or that both give a result. -/
inductive Agree {ε α β : Type} (R : α → β → Prop) : Except ε α → Except ε β → Prop
  | error (fault fault' : ε) : Agree R (.error fault) (.error fault')
  | ok {a : α} {b : β} : R a b → Agree R (.ok a) (.ok b)

section

variable {ε α β γ δ : Type} {R : α → β → Prop} {S : γ → δ → Prop}

theorem agree_refl {R : α → α → Prop} (hR : ∀ a, R a a) (x : Except ε α) : Agree R x x := by
  cases x with
  | error fault => exact .error fault fault
  | ok a => exact .ok (hR a)

theorem Agree.bind {x : Except ε α} {y : Except ε β} (h : Agree R x y) {next : α → Except ε γ}
    {next' : β → Except ε δ} (hnext : ∀ a b, R a b → Agree S (next a) (next' b)) :
    Agree S (x >>= next) (y >>= next') := by
  cases h with
  | error fault fault' => exact .error fault fault'
  | ok hab => exact hnext _ _ hab

/-- The same step first. -/
theorem agree_bind (x : Except ε α) {next : α → Except ε γ} {next' : α → Except ε δ}
    (hnext : ∀ a, Agree S (next a) (next' a)) : Agree S (x >>= next) (x >>= next') := by
  apply (agree_refl (fun _ => rfl) x : Agree Eq x x).bind
  rintro a _ rfl
  exact hnext a

/-- Runs over the same items go on agreeing. -/
theorem agree_run {Item : Type} {step : α → Item → Except ε α} {step' : β → Item → Except ε β}
    (hstep : ∀ a b item, R a b → Agree R (step a item) (step' b item)) (items : List Item)
    {a : α} {b : β} (h : R a b) : Agree R (items.foldlM step a) (items.foldlM step' b) := by
  induction items generalizing a b with
  | nil => exact .ok h
  | cons item items ih =>
    rw [List.foldlM_cons, List.foldlM_cons]
    exact (hstep a b item h).bind fun _ _ hnext => ih hnext

theorem Agree.isOk {x : Except ε α} {y : Except ε β} (h : Agree R x y) :
    (∃ a, x = .ok a) ↔ ∃ b, y = .ok b := by
  cases h with
  | error => simp
  | ok => simp

end

namespace Declaration

open TypeStore

/-! ## Whether a record fails

The numbers of a record decide, whatever the store, unless the record is a type
definition. -/

theorem agree_readAll {Part : Type} {read : TypeStore → Record → Except Fault (Part × TypeStore)}
    (hread : ∀ store store' record,
      Agree (fun _ _ => True) (read store record) (read store' record))
    (records : List Record) (store store' : TypeStore) :
    Agree (fun _ _ => True) (readAll read store records) (readAll read store' records) := by
  induction records generalizing store store' with
  | nil => exact .ok trivial
  | cons record records ih =>
    apply (hread store store' record).bind
    rintro ⟨part, next⟩ ⟨part', next'⟩ -
    apply (ih next next').bind
    rintro ⟨parts, last⟩ ⟨parts', last'⟩ -
    exact .ok trivial

theorem agree_addEnum (store store' : TypeStore) (record : Record) :
    Agree (fun _ _ => True) (addEnum store record) (addEnum store' record) :=
  agree_bind _ fun _ => agree_bind _ fun _ => .ok trivial

theorem agree_addSignature (store store' : TypeStore) (record : Record) :
    Agree (fun _ _ => True) (addSignature store record) (addSignature store' record) := by
  have hread (store store' : TypeStore) (record : Record) :
      Agree (fun _ _ => True) (readParameter store record) (readParameter store' record) :=
    agree_bind _ fun _ => agree_bind _ fun _ => .ok trivial
  apply (agree_readAll hread (record.childrenOf .parameter) _ _).bind
  rintro ⟨parameters, last⟩ ⟨parameters', last'⟩ -
  exact .ok trivial

theorem agree_addLayout (kind : LayoutKind) (store store' : TypeStore) (record : Record) :
    Agree (fun _ _ => True) (addLayout kind store record) (addLayout kind store' record) := by
  have hread (store store' : TypeStore) (record : Record) :
      Agree (fun _ _ => True) (readMember kind store record) (readMember kind store' record) :=
    agree_bind _ fun _ => agree_bind _ fun _ => .ok trivial
  apply (agree_readAll hread (record.childrenOf .member) _ _).bind
  rintro ⟨members, last⟩ ⟨members', last'⟩ -
  exact agree_bind _ fun _ => .ok trivial

section

variable {pointerSize : UInt32} {records : List Record} {keys : List TypeKey} {store : TypeStore}
  {record : Record} {shape : Shape}

/-! ## Whether a run fails -/

theorem agree_addTypedef (h : Standing pointerSize records keys store)
    (hfresh : Record.lastToDeclare? records record.key = none) :
    Agree (fun _ _ => True) (addTypedef (withBuiltins pointerSize) record)
      (addTypedef store record) := by
  obtain ⟨alone, halone, hfirst⟩ := (standing_withBuiltins pointerSize).found rfl
  obtain ⟨e, he, hsecond⟩ := h.found hfresh
  rw [addTypedef_eq rfl halone, addTypedef_eq rfl he]
  rcases hfirst with hfirst | ⟨hnot, hfirst⟩
  · rcases hsecond with hsecond | ⟨hnot, -⟩
    · obtain rfl := Option.some.inj (hfirst.symm.trans hsecond)
      cases alone.shape <;> constructor <;> trivial
    · exact absurd (mem_builtinKeys_of_byKey? hfirst) hnot
  · rcases hsecond with hsecond | ⟨-, hsecond⟩
    · exact absurd (mem_builtinKeys_of_byKey? hsecond) hnot
    · unfold SpelledAs at hfirst hsecond
      split at hfirst
      · rename_i hinner
        rw [hinner] at hsecond
        rw [hfirst, hsecond]
        exact .ok trivial
      · rename_i count hinner
        rw [hinner] at hsecond
        obtain ⟨slot, hshape, -⟩ := hfirst
        obtain ⟨slot', hshape', -⟩ := hsecond
        rw [hshape, hshape']
        cases count <;> exact .error _ _

/-- A record fails after some records just when it fails alone. -/
theorem agree_addRecord (h : Standing pointerSize records keys store)
    (hfresh : Record.lastToDeclare? records record.key = none) :
    Agree (fun _ _ => True) (addRecord (withBuiltins pointerSize) record)
      (addRecord store record) := by
  unfold addRecord
  split
  · exact agree_addEnum _ _ record
  · exact agree_addTypedef h hfresh
  · exact agree_addSignature _ _ record
  · exact agree_addLayout .struct _ _ record
  · exact agree_addLayout .union _ _ record
  · exact .ok trivial

theorem foldlM_isOk_iff {done rest : List Record} (honce : Once (done ++ rest))
    (hkinds : ∀ record ∈ rest, record.kind ∈ declaringKinds)
    (h : Standing pointerSize done keys store) :
    (∃ store', rest.foldlM addRecord store = .ok store') ↔
      ∀ record ∈ rest, ∃ store', addRecord (withBuiltins pointerSize) record = .ok store' := by
  induction rest generalizing done keys store with
  | nil => exact ⟨nofun, fun _ => ⟨store, rfl⟩⟩
  | cons record rest ih =>
    have hagree := (agree_addRecord h honce.fresh).isOk
    rw [List.forall_mem_cons, hagree]
    simp only [List.foldlM_cons, bind_eq_ok]
    have hnext {middle : TypeStore} (hfirst : addRecord store record = .ok middle) :=
      ih (by simpa using honce) (fun r hr => hkinds r (List.mem_cons_of_mem _ hr))
        (standing_addRecord honce (hkinds record List.mem_cons_self) h hfirst)
    constructor
    · rintro ⟨store', middle, hfirst, hrest⟩
      exact ⟨⟨middle, hfirst⟩, (hnext hfirst).mp ⟨store', hrest⟩⟩
    · rintro ⟨⟨middle, hfirst⟩, hrest⟩
      obtain ⟨store', hlast⟩ := (hnext hfirst).mpr hrest
      exact ⟨store', middle, hfirst, hlast⟩

/-! ## The same types in every order -/

/-- Lists that the same items tell of come to the same. -/
theorem map_eq_of_forall₂ {α β γ δ : Type} {R : α → β → Prop} {S : α → γ → Prop} {f : β → δ}
    {g : γ → δ} {xs : List α} {ys : List β} {zs : List γ} (h : List.Forall₂ R xs ys)
    (h' : List.Forall₂ S xs zs) (hfg : ∀ x, ∀ y ∈ ys, ∀ z ∈ zs, R x y → S x z → f y = g z) :
    ys.map f = zs.map g := by
  induction h generalizing zs with
  | nil =>
    cases h'
    rfl
  | @cons x y xs ys hr _ ih =>
    obtain ⟨⟩ | ⟨hs, hrest⟩ := h'
    rw [List.map_cons, List.map_cons, hfg x _ List.mem_cons_self _ List.mem_cons_self hr hs,
      ih hrest fun x y hy z hz => hfg x y (List.mem_cons_of_mem _ hy) z (List.mem_cons_of_mem _ hz)]

theorem describesElements_unique {entries : List Record}
    {elements elements' : Std.ExtTreeMap UInt32 String} (h : DescribesElements entries elements)
    (h' : DescribesElements entries elements') : elements' = elements :=
  Std.ExtTreeMap.ext_getElem? fun value => (h' value).trans (h value).symm

variable {store' : TypeStore} {shape' : Shape}

theorem DescribesMember.same {kind : LayoutKind} {m m' : Member}
    (h : DescribesMember kind store record m) (h' : DescribesMember kind store' record m')
    (hnone : m.directives = []) (hnone' : m'.directives = []) (number : Option TypeKey → Slot) :
    m'.mapRefs (fun r => number (store'.keyAt? r)) =
      m.mapRefs fun r => number (store.keyAt? r) := by
  obtain ⟨name, type, offset, size, comment, directives⟩ := m
  obtain ⟨name', type', offset', size', comment', directives'⟩ := m'
  obtain ⟨hname, hoffset, hsize, hcomment, htype⟩ := h
  obtain ⟨hname', hoffset', hsize', hcomment', htype'⟩ := h'
  simp only at hname hoffset hsize hcomment htype hnone
  simp only at hname' hoffset' hsize' hcomment' htype' hnone'
  obtain rfl := Except.ok.inj (hoffset.symm.trans hoffset')
  obtain rfl := Except.ok.inj (hsize.symm.trans hsize')
  simp only [Member.mapRefs, hname, hname', hcomment, hcomment', htype, htype', hnone, hnone',
    List.map_nil]

theorem DescribesParameter.same {p p' : Parameter} (h : DescribesParameter store record p)
    (h' : DescribesParameter store' record p') (number : Option TypeKey → Slot) :
    { p' with type := number (store'.keyAt? p'.type) } =
      { p with type := number (store.keyAt? p.type) } := by
  obtain ⟨ordinal, name, size, type⟩ := p
  obtain ⟨ordinal', name', size', type'⟩ := p'
  obtain ⟨hordinal, hname, hsize, htype⟩ := h
  obtain ⟨hordinal', hname', hsize', htype'⟩ := h'
  simp only at hordinal hname hsize htype hordinal' hname' hsize' htype'
  obtain rfl := Except.ok.inj (hordinal.symm.trans hordinal')
  obtain rfl := Except.ok.inj (hsize.symm.trans hsize')
  simp only [hname, hname', htype, htype']

theorem DescribesLayout.same {kind : LayoutKind} {layout layout' : Layout}
    (h : DescribesLayout kind store record layout) (h' : DescribesLayout kind store' record layout')
    (hnone : ∀ m ∈ layout.members, m.directives = [])
    (hnone' : ∀ m ∈ layout'.members, m.directives = []) (number : Option TypeKey → Slot) :
    layout'.mapRefs (fun r => number (store'.keyAt? r)) =
      layout.mapRefs fun r => number (store.keyAt? r) := by
  have hsize := Except.ok.inj (h'.size.symm.trans h.size)
  unfold Layout.mapRefs
  rw [hsize, map_eq_of_forall₂ h'.members h.members fun _ m' hm' m hm hd' hd =>
    hd.same hd' (hnone m hm) (hnone' m' hm') number]

/-- What a record declares is told by the record. -/
theorem Describes.same (h : Describes store record shape) (h' : Describes store' record shape')
    (hbare : Bare shape) (hbare' : Bare shape') (number : Option TypeKey → Slot) :
    shape'.mapRefs (fun r => number (store'.keyAt? r)) =
      shape.mapRefs fun r => number (store.keyAt? r) := by
  cases h with
  | enumeration hkind hsize helements =>
    cases h' with
    | enumeration _ hsize' helements' =>
      rw [Except.ok.inj (hsize'.symm.trans hsize), describesElements_unique helements helements']
      rfl
    | _ hkind' => cases hkind.symm.trans hkind'
  | typedef hkind htarget =>
    cases h' with
    | typedef _ htarget' => simp only [Shape.mapRefs, htarget, htarget']
    | _ hkind' => cases hkind.symm.trans hkind'
  | signature hkind hresult hparameters =>
    cases h' with
    | signature _ hresult' hparameters' =>
      simp only [Shape.mapRefs, hresult, hresult', map_eq_of_forall₂ hparameters' hparameters
        fun _ _ _ _ _ hp' hp => hp.same hp' number]
    | _ hkind' => cases hkind.symm.trans hkind'
  | struct hkind hl =>
    cases h' with
    | struct _ hl' =>
      rw [Shape.mapRefs, Shape.mapRefs, hl.same hl' (hbare _ rfl) (hbare' _ rfl) number]
    | _ hkind' => cases hkind.symm.trans hkind'
  | union hkind hl =>
    cases h' with
    | union _ hl' =>
      rw [Shape.mapRefs, Shape.mapRefs, hl.same hl' (hbare _ rfl) (hbare' _ rfl) number]
    | _ hkind' => cases hkind.symm.trans hkind'

/-- A key stands for the same after the same records, in whatever order. -/
theorem Standing.matches_ {records' : List Record} {keys' : List TypeKey} {key : TypeKey}
    {e e' : Entity} (h : Standing pointerSize records keys store)
    (h' : Standing pointerSize records' keys' store')
    (hlast : Record.lastToDeclare? records' key = Record.lastToDeclare? records key)
    (he : store.byKey? key = some e) (he' : store'.byKey? key = some e') :
    Matches store store' e e' := by
  have hmatches (hshape : ∀ number : Option TypeKey → Slot,
      e'.shape.mapRefs (fun r => number (store'.keyAt? r)) =
        e.shape.mapRefs fun r => number (store.keyAt? r)) : Matches store store' e e' := by
    intro number
    unfold numbered Entity.mapRefs
    rw [hshape number, h.sound.indexed.key_of_byKey? he, h'.sound.indexed.key_of_byKey? he']
  cases hrecord : Record.lastToDeclare? records key with
  | some record =>
    obtain ⟨_, hby, hdescribes⟩ := h.declaring.declares key record hrecord
    obtain ⟨_, hby', hdescribes'⟩ := h'.declaring.declares key record (hlast.trans hrecord)
    obtain rfl := Option.some.inj (he.symm.trans hby)
    obtain rfl := Option.some.inj (he'.symm.trans hby')
    exact hmatches (hdescribes.same hdescribes' (h.bare key _ he) (h'.bare key _ he'))
  | none =>
    rcases h.undeclared key e he hrecord with hbuiltin | ⟨hnot, hspelled⟩
    · rcases h'.undeclared key e' he' (hlast.trans hrecord) with hbuiltin' | ⟨hnot, -⟩
      · obtain rfl := Option.some.inj (hbuiltin.symm.trans hbuiltin')
        have hrefs := refs_of_mem_entities (mem_entities_of_byKey? hbuiltin)
        exact hmatches fun number => Shape.mapRefs_congr fun r hr => by
          rw [show e.shape.refs = [] from hrefs] at hr
          cases hr
      · exact absurd (mem_builtinKeys_of_byKey? hbuiltin) hnot
    · rcases h'.undeclared key e' he' (hlast.trans hrecord) with hbuiltin' | ⟨-, hspelled'⟩
      · exact absurd (mem_builtinKeys_of_byKey? hbuiltin') hnot
      · exact hmatches (hspelled.same hspelled')

theorem Standing.similar {records' : List Record} {keys' : List TypeKey}
    (h : Standing pointerSize records keys store) (h' : Standing pointerSize records' keys' store')
    (honce : Once records) (hperm : records.Perm records') (hkeys : keys.Perm keys') :
    Similar store store' := by
  have hmem (key : TypeKey) : key ∈ store'.keys ↔ key ∈ store.keys := by
    rw [h.registered, h'.registered]
    simp only [hperm.mem_iff, hkeys.mem_iff]
  refine ⟨h.sound, h'.sound, h'.pointers.trans h.pointers.symm, fun number key => ?_⟩
  by_cases hkey : key ∈ store.keys
  · obtain ⟨e, he⟩ := (mem_keys_iff_byKey? h.sound.indexed).mp hkey
    obtain ⟨e', he'⟩ := (mem_keys_iff_byKey? h'.sound.indexed).mp ((hmem key).mpr hkey)
    rw [view, view, he, he', Option.map_some, Option.map_some,
      h.matches_ h' (honce.lastToDeclare?_perm hperm key) he he' number]
  · have hnone := not_mem_keys.mp hkey
    have hnone' := not_mem_keys.mp fun hmem' => hkey ((hmem key).mp hmem')
    rw [view, view, byKey?, byKey?, hnone, hnone']
    rfl

end

/-- The same records in any order all fail, or come to stores that say the
same. -/
theorem agree_foldlM {records records' : List Record} (pointerSize : UInt32)
    (hkinds : ∀ record ∈ records, record.kind ∈ declaringKinds) (honce : Once records)
    (hperm : records.Perm records') :
    Agree Similar (records.foldlM addRecord (withBuiltins pointerSize))
      (records'.foldlM addRecord (withBuiltins pointerSize)) := by
  have hkinds' : ∀ record ∈ records', record.kind ∈ declaringKinds :=
    fun record hrecord => hkinds record (hperm.mem_iff.mpr hrecord)
  have hstart := standing_withBuiltins pointerSize
  have hall : Once ([] ++ records) := honce
  have hall' : Once ([] ++ records') := honce.perm hperm
  have hok := foldlM_isOk_iff hall hkinds hstart
  have hok' := foldlM_isOk_iff hall' hkinds' hstart
  cases hrun : records.foldlM addRecord (withBuiltins pointerSize) with
  | ok store =>
    obtain ⟨store', hrun'⟩ := hok'.mpr fun record hrecord =>
      hok.mp ⟨store, hrun⟩ record (hperm.mem_iff.mpr hrecord)
    rw [hrun']
    have hstanding := standing_foldlM hall hkinds hstart hrun
    have hstanding' := standing_foldlM hall' hkinds' hstart hrun'
    exact .ok (hstanding.similar hstanding' honce hperm (hperm.flatMap_right _))
  | error fault =>
    cases hrun' : records'.foldlM addRecord (withBuiltins pointerSize) with
    | error fault' => exact .error fault fault'
    | ok store' =>
      obtain ⟨store, hsome⟩ := hok.mpr fun record hrecord =>
        hok'.mp ⟨store', hrun'⟩ record (hperm.mem_iff.mp hrecord)
      rw [hrun] at hsome
      cases hsome

/-- The declarations of two exports with the same records, in whatever order. -/
theorem agree_addAll {doc doc' : Export} (pointerSize : UInt32)
    (hperm : doc.declarations.Perm doc'.declarations) (honce : Once doc.declarations) :
    Agree Similar (addAll (withBuiltins pointerSize) doc)
      (addAll (withBuiltins pointerSize) doc') := by
  rw [addAll_eq, addAll_eq]
  refine agree_foldlM pointerSize (fun record hrecord => ?_) honce hperm
  obtain ⟨kind, hkind, hmem⟩ := List.mem_flatMap.mp hrecord
  rw [beq_iff_eq.mp (List.mem_filter.mp hmem).2]
  exact hkind

end Declaration

end BinaryAtlas
