-- The laws of type definitions that conflict. A type definition looks at its key
-- after it has asked for its target and for the key itself, so what it finds there
-- is a type of its own kind for each key: an enum, a builtin type, a pointer or an
-- array that the name spells, an earlier type definition, or a placeholder. The
-- keys of the enums and of the type definitions before it tell which one it is, and
-- no target of any type definition has a say in it.
import BinaryAtlas.Proofs.SpelledTypes

namespace BinaryAtlas

/-! ## Names of pointers and arrays -/

namespace TypeKey

/-- The name is spelled as that of a pointer or of an array: it ends with a star, or
its first brackets hold a number. -/
def IsComposite (key : TypeKey) : Prop :=
  (∃ front, key.name.toList = front ++ ['*']) ∨
    ∃ before digits after count, key.name.toList = before ++ '[' :: (digits ++ ']' :: after) ∧
      '[' ∉ before ∧ ']' ∉ digits ∧ Text.word? 10 (Text.trim digits) = some count

theorem isComposite_iff {key : TypeKey} :
    key.IsComposite ↔ ∃ inner count, key.Around inner count := by
  have hstar {front : List Char} (hfront : key.name.toList = front ++ ['*']) :
      ∃ inner count, key.Around inner count := by
    by_cases htext : key.name = "char *"
    · exact ⟨_, _, .text htext⟩
    · exact ⟨_, _, .pointer htext hfront⟩
  constructor
  · rintro (⟨front, hfront⟩ | ⟨before, digits, after, count, hcut, hbefore, hdigits, hcount⟩)
    · exact hstar hfront
    · by_cases hlast : ∃ front, key.name.toList = front ++ ['*']
      · exact hstar hlast.choose_spec
      · exact ⟨_, _, .array (not_exists.mp hlast) hcut hbefore hdigits hcount⟩
  · rintro ⟨inner, count, haround⟩
    cases haround with
    | text hname => exact .inl ⟨['c', 'h', 'a', 'r', ' '], toList_name_eq.mpr hname⟩
    | pointer _ hfront => exact .inl ⟨_, hfront⟩
    | array _ hcut hbefore hdigits hcount => exact .inr ⟨_, _, _, _, hcut, hbefore, hdigits, hcount⟩

theorem not_isComposite_iff {key : TypeKey} : ¬ key.IsComposite ↔ key.inner? = none := by
  simp only [isComposite_iff, not_exists, inner?_eq_none]

/-- The kind of the type that a request makes for the key. -/
def madeKind (key : TypeKey) : TypeKind :=
  match key.inner? with
  | none => .placeholder
  | some (_, none) => .pointer
  | some (_, some _) => .array

theorem madeKind_ne_primitive (key : TypeKey) : key.madeKind ≠ .primitive := by
  unfold madeKind
  split <;> nofun

theorem madeKind_eq_placeholder (key : TypeKey) (h : key.madeKind = .placeholder) :
    key.inner? = none := by
  unfold madeKind at h
  split at h
  · assumption
  · cases h
  · cases h

end TypeKey

namespace TypeStore

/-- A request makes types of the kinds that their keys spell. -/
theorem entity?_get {store : TypeStore} {key : TypeKey} {slot : Slot} {e : Entity}
    (h : (store.get key).2.entity? slot = some e) :
    store.entity? slot = some e ∨ e.kind = e.key.madeKind := by
  induction key using TypeKey.inner_induction with
  | plain key hplain =>
    cases hkey : store.lookup key with
    | some found =>
      rw [get_of_lookup hkey] at h
      exact .inl h
    | none =>
      rw [get_eq, getOr_of_missing hkey, make, hplain] at h
      simp only [entity?_add] at h
      split at h
      · obtain rfl := Option.some.inj h
        exact .inr (by rw [TypeKey.madeKind, hplain]; rfl)
      · exact .inl h
  | spelled key inner count hinner ih =>
    cases hkey : store.lookup key with
    | some found =>
      rw [get_of_lookup hkey] at h
      exact .inl h
    | none =>
      rw [get_eq, getOr_of_missing hkey, make, hinner] at h
      simp only [entity?_add] at h
      split at h
      · obtain rfl := Option.some.inj h
        exact .inr (by rw [TypeKey.madeKind, hinner]; cases count <;> rfl)
      · exact ih h

theorem entity?_askAll {keys : List TypeKey} {store : TypeStore} {slot : Slot} {e : Entity}
    (h : (store.askAll keys).entity? slot = some e) :
    store.entity? slot = some e ∨ e.kind = e.key.madeKind := by
  induction keys generalizing store with
  | nil => exact .inl h
  | cons key keys ih => exact (ih h).elim entity?_get .inr

end TypeStore

namespace Declaration

open TypeStore

/-! ## What a type definition finds -/

/-- The kind of the type that a key has once it is asked for, after enums of some
keys and type definitions of others. -/
def foundKind (enums typedefs : List TypeKey) (key : TypeKey) : TypeKind :=
  if key ∈ enums then .enumeration
  else if key = stringKey then .string
  else if key ∈ Builtin.primitiveKeys then .primitive
  else if key ∈ typedefs ∧ key.inner? = none then .typedef
  else key.madeKind

/-- A type definition of the key is in conflict with enums of some keys and with
earlier type definitions of others, or with what every program has. -/
def Conflicts (enums typedefs : List TypeKey) (key : TypeKey) : Prop :=
  key ∈ enums ∨ key = .root "string" ∨ key.IsComposite ∨
    key ∈ typedefs ∧ ¬ (key ∈ Builtin.primitiveKeys ∧ key ∉ enums)

section

variable {enums typedefs : List TypeKey} {key other : TypeKey}

theorem not_isComposite_of_builtin (h : key ∈ builtinKeys) : ¬ key.IsComposite :=
  TypeKey.not_isComposite_iff.mpr (inner?_of_mem_builtinKeys h)

/-- A conflict is a type that is neither a placeholder nor a primitive. -/
theorem conflicts_iff : Conflicts enums typedefs key ↔
    foundKind enums typedefs key ≠ .placeholder ∧ foundKind enums typedefs key ≠ .primitive := by
  unfold foundKind Conflicts
  by_cases henum : key ∈ enums
  · simp [henum]
  by_cases htext : key = stringKey
  · rw [if_neg henum, if_pos htext]
    exact iff_of_true (.inr (.inl htext)) ⟨nofun, nofun⟩
  have hroot : key ≠ .root "string" := htext
  by_cases hprimitive : key ∈ Builtin.primitiveKeys
  · simp [henum, htext, hroot, hprimitive,
      not_isComposite_of_builtin (List.mem_cons_of_mem _ hprimitive)]
  by_cases hcomposite : key.IsComposite
  · obtain ⟨⟨inner, count⟩, hinner⟩ := Option.ne_none_iff_exists'.mp
      (mt TypeKey.not_isComposite_iff.mpr (not_not_intro hcomposite))
    cases count <;> simp [henum, htext, hprimitive, hcomposite, hinner, TypeKey.madeKind]
  · have hinner := TypeKey.not_isComposite_iff.mp hcomposite
    by_cases htypedef : key ∈ typedefs <;>
      simp [henum, htext, hroot, hprimitive, hcomposite, hinner, htypedef, TypeKey.madeKind]

/-- Of a key that nothing defines, the key itself tells the kind. -/
theorem foundKind_of_undefined (henum : key ∉ enums) (htypedef : key ∉ typedefs)
    (hbuiltin : key ∉ builtinKeys) : foundKind enums typedefs key = key.madeKind := by
  obtain ⟨htext, hprimitive⟩ := not_or.mp (mt List.mem_cons.mpr hbuiltin)
  rw [foundKind, if_neg henum, if_neg htext, if_neg hprimitive,
    if_neg fun hboth => htypedef hboth.1]

/-- One more type definition makes a difference to its own key only. -/
theorem foundKind_typedef_of_ne (h : key ≠ other) :
    foundKind enums (typedefs ++ [key]) other = foundKind enums typedefs other := by
  simp [foundKind, h.symm]

theorem foundKind_eq_primitive (h : foundKind enums typedefs key = .primitive) :
    key ∈ Builtin.primitiveKeys ∧ foundKind enums (typedefs ++ [key]) key = .primitive := by
  unfold foundKind at h ⊢
  split at h
  · cases h
  split at h
  · cases h
  split at h
  · rename_i henum htext hprimitive
    exact ⟨hprimitive, by rw [if_neg henum, if_neg htext, if_pos hprimitive]⟩
  split at h
  · cases h
  · exact absurd h key.madeKind_ne_primitive

theorem foundKind_eq_placeholder (h : foundKind enums typedefs key = .placeholder) :
    foundKind enums (typedefs ++ [key]) key = .typedef := by
  unfold foundKind at h ⊢
  split at h
  · cases h
  split at h
  · cases h
  split at h
  · cases h
  split at h
  · cases h
  · rename_i henum htext hprimitive _
    rw [if_neg henum, if_neg htext, if_neg hprimitive, if_pos]
    exact ⟨List.mem_append_right _ (List.mem_singleton_self key), key.madeKind_eq_placeholder h⟩

theorem foundKind_enum (key other : TypeKey) :
    foundKind (enums ++ [key]) typedefs other =
      if key = other then .enumeration else foundKind enums typedefs other := by
  by_cases h : key = other
  · simp [foundKind, h]
  · simp [foundKind, h, Ne.symm h]

end

/-! ## Stores of enums and type definitions -/

/-- What holds after enums of some keys and type definitions of others, whatever
has been asked for. -/
structure Defined (enums typedefs : List TypeKey) (store : TypeStore) : Prop where
  indexed : Indexed store
  found : ∀ key e, store.byKey? key = some e → e.kind = foundKind enums typedefs key
  registered : ∀ key, key ∈ enums ∨ key ∈ typedefs ∨ key ∈ builtinKeys → key ∈ store.keys

theorem defined_withBuiltins (pointerSize : UInt32) : Defined [] [] (withBuiltins pointerSize) where
  indexed := indexed_withBuiltins pointerSize
  found := by
    intro key e he
    obtain rfl := (indexed_withBuiltins pointerSize).key_of_byKey? he
    rcases shape_of_mem_entities (mem_entities_of_byKey? he) with
      ⟨hkey, hshape⟩ | ⟨hkey, size, hshape⟩
    · simp [foundKind, Entity.kind, hkey, hshape, Shape.kind]
    · have hne : e.key ≠ stringKey := by
        intro h
        rw [h] at hkey
        exact absurd hkey (by decide +kernel)
      simp [foundKind, Entity.kind, hkey, hne, hshape, Shape.kind]
  registered key h := by simpa [mem_keys_withBuiltins] using h

section

variable {enums typedefs : List TypeKey} {store : TypeStore}

/-- Requests make what the invariant says of keys that nothing defines. -/
theorem Defined.asks (h : Defined enums typedefs store) (keys : List TypeKey) :
    Defined enums typedefs (store.askAll keys) where
  indexed := (askAll_grows store keys).indexed h.indexed
  found := by
    intro key e he
    by_cases hkey : key ∈ store.keys
    · obtain ⟨old, hold⟩ := (mem_keys_iff_byKey? h.indexed).mp hkey
      obtain rfl := Option.some.inj (he.symm.trans ((askAll_grows store keys).extends_.byKey? hold))
      exact h.found key e hold
    · obtain ⟨henum, htypedef, hbuiltin⟩ : key ∉ enums ∧ key ∉ typedefs ∧ key ∉ builtinKeys := by
        simpa only [not_or] using mt (h.registered key) hkey
      obtain ⟨slot, hslot, hentity⟩ := byKey?_eq_some.mp he
      obtain rfl := ((askAll_grows store keys).indexed h.indexed).key_of_byKey? he
      rw [foundKind_of_undefined henum htypedef hbuiltin]
      rcases entity?_askAll hentity with hold | hmade
      · exact absurd (mem_keys.mpr (h.indexed.known hold)) hkey
      · exact hmade
  registered key hkey := (askAll_grows store keys).extends_.mem_keys (h.registered key hkey)

/-- An enum takes its key over from whatever type the key has. -/
theorem Defined.enum (h : Defined enums [] store) {record : Record} {store' : TypeStore}
    (hadd : addEnum store record = .ok store') : Defined (enums ++ [record.key]) [] store' := by
  unfold addEnum at hadd
  simp only [bind_eq_ok] at hadd
  obtain ⟨elements, -, size, -, hadd⟩ := hadd
  obtain rfl := Except.ok.inj hadd
  refine ⟨indexed_add h.indexed _, fun key e he => ?_, fun key hkey => ?_⟩
  · rw [byKey?_add h.indexed] at he
    rw [foundKind_enum]
    split at he
    · rename_i hsame
      obtain rfl := Option.some.inj he
      exact (if_pos hsame).symm
    · rename_i hother
      exact (h.found key e he).trans (if_neg hother).symm
  · rw [mem_keys_add]
    rw [List.mem_append, List.mem_singleton] at hkey
    rcases hkey with (henum | hsame) | hrest
    · exact .inl (h.registered key (.inl henum))
    · exact .inr hsame
    · exact .inl (h.registered key (.inr hrest))

/-- A type definition in the place of a placeholder. -/
theorem Defined.define (h : Defined enums typedefs store) {key : TypeKey} (target : Slot)
    (hkey : foundKind enums typedefs key = .placeholder) :
    Defined enums (typedefs ++ [key]) (store.add { key, shape := .typedef target }).2 := by
  refine ⟨indexed_add h.indexed _, fun other e he => ?_, fun other hother => ?_⟩
  · rw [byKey?_add h.indexed] at he
    split at he
    · rename_i hsame
      obtain rfl : key = other := hsame
      obtain rfl := Option.some.inj he
      exact (foundKind_eq_placeholder hkey).symm
    · rename_i hne
      exact (h.found other e he).trans (foundKind_typedef_of_ne hne).symm
  · rw [mem_keys_add]
    rw [List.mem_append, List.mem_singleton] at hother
    rcases hother with henum | (htypedef | hsame) | hbuiltin
    · exact .inl (h.registered other (.inl henum))
    · exact .inl (h.registered other (.inr (.inl htypedef)))
    · exact .inr hsame
    · exact .inl (h.registered other (.inr (.inr hbuiltin)))

/-- A type definition of a primitive leaves all as it was. -/
theorem Defined.restate (h : Defined enums typedefs store) {key : TypeKey}
    (hkey : foundKind enums typedefs key = .primitive) :
    Defined enums (typedefs ++ [key]) store := by
  obtain ⟨hprimitive, hstill⟩ := foundKind_eq_primitive hkey
  refine ⟨h.indexed, fun other e he => ?_, fun other hother => ?_⟩
  · by_cases hsame : key = other
    · subst hsame
      rw [h.found key e he, hkey, hstill]
    · rw [h.found other e he, foundKind_typedef_of_ne hsame]
  · rw [List.mem_append, List.mem_singleton] at hother
    rcases hother with henum | (htypedef | rfl) | hbuiltin
    · exact h.registered other (.inl henum)
    · exact h.registered other (.inr (.inl htypedef))
    · exact h.registered other (.inr (.inr (List.mem_cons_of_mem _ hprimitive)))
    · exact h.registered other (.inr (.inr hbuiltin))

/-- A type definition fails if its key conflicts, and else it is one more of them. Its
own target makes no difference. -/
theorem Defined.typedef (h : Defined enums typedefs store) (record : Record) :
    (Conflicts enums typedefs record.key ∧ addTypedef store record = .error
      (.conflictingDeclaration record.key (foundKind enums typedefs record.key) record.key)) ∨
    (¬ Conflicts enums typedefs record.key ∧ ∃ store', addTypedef store record = .ok store' ∧
      Defined enums (typedefs ++ [record.key]) store') := by
  have hlast := h.asks [record.dataTypeKey, record.key]
  have hkey := (get_gets (store.get record.dataTypeKey).2 record.key).lookup
  obtain ⟨e, he⟩ := (mem_keys_iff_byKey? hlast.indexed).mp (mem_keys.mpr ⟨_, hkey⟩)
  have hfound := hlast.found _ e he
  rw [addTypedef_eq rfl he, conflicts_iff, ← hfound, hlast.indexed.key_of_byKey? he]
  unfold Entity.kind at hfound ⊢
  cases hshape : e.shape with
  | placeholder =>
    rw [hshape] at hfound
    exact .inr ⟨fun hconflict => hconflict.1 rfl, _, rfl, hlast.define _ hfound.symm⟩
  | primitive size =>
    rw [hshape] at hfound
    exact .inr ⟨fun hconflict => hconflict.2 rfl, _, rfl, hlast.restate hfound.symm⟩
  | _ => exact .inl ⟨⟨nofun, nofun⟩, rfl⟩

end

theorem defined_enums {records : List Record} {pointerSize : UInt32} {store : TypeStore}
    (h : records.foldlM addEnum (withBuiltins pointerSize) = .ok store) :
    Defined (records.map Record.key) [] store := by
  have hstep (done : List Record) (s : TypeStore) (record : Record) (s' : TypeStore)
      (_ : record ∈ records) (hs : Defined (done.map Record.key) [] s)
      (hadd : addEnum s record = .ok s') : Defined ((done ++ [record]).map Record.key) [] s' := by
    rw [List.map_append]
    exact hs.enum hadd
  have hstart : Defined (([] : List Record).map Record.key) [] (withBuiltins pointerSize) :=
    defined_withBuiltins pointerSize
  exact foldlM_invariant (P := fun done => Defined (done.map Record.key) []) hstep hstart h

/-! ## Runs of type definitions -/

/-- None of the keys conflicts with the enums and the keys before it. -/
def Clear (enums typedefs : List TypeKey) : Prop :=
  ∀ earlier key later, typedefs = earlier ++ key :: later → ¬ Conflicts enums earlier key

section

variable {enums : List TypeKey} {store : TypeStore}

theorem Defined.typedefs (h : Defined enums [] store) {records : List Record}
    {store' : TypeStore} (hrun : records.foldlM addTypedef store = .ok store') :
    Defined enums (records.map Record.key) store' := by
  have hstep (done : List Record) (s : TypeStore) (record : Record) (s' : TypeStore)
      (_ : record ∈ records) (hs : Defined enums (done.map Record.key) s)
      (hadd : addTypedef s record = .ok s') :
      Defined enums ((done ++ [record]).map Record.key) s' := by
    rw [List.map_append]
    rcases hs.typedef record with ⟨-, herror⟩ | ⟨-, next, hok, hnext⟩
    · cases herror.symm.trans hadd
    · obtain rfl := Except.ok.inj (hok.symm.trans hadd)
      exact hnext
  have hstart : Defined enums (([] : List Record).map Record.key) store := h
  exact foldlM_invariant (P := fun done => Defined enums (done.map Record.key)) hstep hstart hrun

theorem Defined.typedef_eq_error {typedefs : List TypeKey} (h : Defined enums typedefs store)
    {record : Record} {fault : Fault} : addTypedef store record = .error fault ↔
      Conflicts enums typedefs record.key ∧ fault =
        .conflictingDeclaration record.key (foundKind enums typedefs record.key) record.key := by
  rcases h.typedef record with ⟨hconflict, herror⟩ | ⟨hclear, next, hok, -⟩
  · rw [herror, Except.error.injEq]
    exact ⟨fun heq => ⟨hconflict, heq.symm⟩, fun hboth => hboth.2.symm⟩
  · rw [hok]
    exact ⟨nofun, fun hboth => absurd hboth.1 hclear⟩

/-- Type definitions succeed exactly if none of their keys conflicts. -/
theorem Defined.succeeds_iff (h : Defined enums [] store) (records : List Record) :
    (∃ store', records.foldlM addTypedef store = .ok store') ↔
      Clear enums (records.map Record.key) := by
  constructor
  · rintro ⟨store', hrun⟩ earlier key later hsplit hconflict
    obtain ⟨before, rest, rfl, rfl, hrest⟩ := List.map_eq_append_iff.mp hsplit
    obtain ⟨record, after, rfl, rfl, -⟩ := List.map_eq_cons_iff.mp hrest
    rw [List.foldlM_append, bind_eq_ok] at hrun
    obtain ⟨s, hbefore, hrun⟩ := hrun
    rw [List.foldlM_cons, bind_eq_ok] at hrun
    obtain ⟨next, hnext, -⟩ := hrun
    have herror := (h.typedefs hbefore).typedef_eq_error.mpr ⟨hconflict, rfl⟩
    cases hnext.symm.trans herror
  · intro hclear
    cases hrun : records.foldlM addTypedef store with
    | ok store' => exact ⟨store', rfl⟩
    | error fault =>
      obtain ⟨before, record, after, s, rfl, hbefore, herror⟩ := foldlM_eq_error.mp hrun
      have hconflict := ((h.typedefs hbefore).typedef_eq_error.mp herror).1
      rw [List.map_append, List.map_cons] at hclear
      exact absurd hconflict (hclear _ _ _ rfl)

/-- Type definitions fail at the first key that conflicts. -/
theorem Defined.fails_iff (h : Defined enums [] store) (records : List Record) (fault : Fault) :
    records.foldlM addTypedef store = .error fault ↔ ∃ earlier key later,
      records.map Record.key = earlier ++ key :: later ∧ Conflicts enums earlier key ∧
      Clear enums earlier ∧
      fault = .conflictingDeclaration key (foundKind enums earlier key) key := by
  rw [foldlM_eq_error]
  constructor
  · rintro ⟨before, record, after, s, rfl, hbefore, herror⟩
    obtain ⟨hconflict, hfault⟩ := (h.typedefs hbefore).typedef_eq_error.mp herror
    refine ⟨before.map Record.key, record.key, after.map Record.key, ?_, hconflict, ?_, hfault⟩
    · rw [List.map_append, List.map_cons]
    · exact (h.succeeds_iff before).mp ⟨s, hbefore⟩
  · rintro ⟨earlier, key, later, hsplit, hconflict, hclear, hfault⟩
    obtain ⟨before, rest, rfl, rfl, hrest⟩ := List.map_eq_append_iff.mp hsplit
    obtain ⟨record, after, rfl, rfl, -⟩ := List.map_eq_cons_iff.mp hrest
    obtain ⟨s, hbefore⟩ := (h.succeeds_iff before).mpr hclear
    exact ⟨before, record, after, s, rfl, hbefore,
      (h.typedefs hbefore).typedef_eq_error.mpr ⟨hconflict, hfault⟩⟩

end

/-- Type definitions fail exactly if some key conflicts with the enums and with the
type definitions before it, and the fault names the first such key and what it
found. The types that the type definitions refer to have no say in it. -/
theorem first_conflict_ends_typedefs {doc : Export} {pointerSize : UInt32} {store : TypeStore}
    (henums : (doc.recordsOf .enumeration).foldlM addEnum (withBuiltins pointerSize) = .ok store) :
    let enums := (doc.recordsOf .enumeration).map Record.key
    let typedefs := (doc.recordsOf .typeDef).map Record.key
    let run := (doc.recordsOf .typeDef).foldlM addTypedef store
    ((∃ fault, run = .error fault) ↔
      ∃ earlier key later, typedefs = earlier ++ key :: later ∧ Conflicts enums earlier key) ∧
    (∀ fault, run = .error fault ↔
      ∃ earlier key later, typedefs = earlier ++ key :: later ∧ Conflicts enums earlier key ∧
        Clear enums earlier ∧
        fault = .conflictingDeclaration key (foundKind enums earlier key) key) ∧
    ∀ others : List Record, others.map Record.key = typedefs →
      ∀ fault, others.foldlM addTypedef store = .error fault ↔ run = .error fault := by
  intro enums typedefs run
  have hdefined := defined_enums henums
  have hfails := hdefined.fails_iff (doc.recordsOf .typeDef)
  refine ⟨⟨?_, ?_⟩, hfails, fun others hothers fault => ?_⟩
  · rintro ⟨fault, hrun⟩
    obtain ⟨earlier, key, later, hsplit, hconflict, -⟩ := (hfails fault).mp hrun
    exact ⟨earlier, key, later, hsplit, hconflict⟩
  · rintro ⟨earlier, key, later, hsplit, hconflict⟩
    cases hrun : run with
    | error fault => exact ⟨fault, rfl⟩
    | ok last =>
      exact absurd hconflict ((hdefined.succeeds_iff _).mp ⟨last, hrun⟩ _ _ _ hsplit)
  · rw [hfails fault, hdefined.fails_iff others fault, hothers]

/-- A type definition of one name by another. -/
def definedAs (name target : String) : Record :=
  Record.withAttribute (.withAttribute { kind := .typeDef } "NAME" name) "DATATYPE" target

/-- Type definitions that refer to later ones and to themselves, and one that restates
a primitive. -/
def tangled : List Record :=
  [definedAs "node" "link *", definedAs "link" "link[2]", definedAs "int" "node"]

def stateRecord : Record :=
  Record.withAttribute (.withAttribute { kind := .enumeration } "NAME" "state") "SIZE" "4"

/-- The last type definition has the key of the first one. -/
def twiceDefined : Export :=
  { records := tangled ++ [definedAs "node" "state *", stateRecord] }

theorem a_second_definition_conflicts : ∃ store,
    (twiceDefined.recordsOf .enumeration).foldlM addEnum (withBuiltins 4) = .ok store ∧
    (twiceDefined.recordsOf .typeDef).foldlM addTypedef store =
      .error (.conflictingDeclaration (.root "node") .typedef (.root "node")) ∧
    (["node", "link", "int", "node"].map (definedAs · "byte")).foldlM addTypedef store =
      .error (.conflictingDeclaration (.root "node") .typedef (.root "node")) := by
  obtain ⟨store, hstore⟩ := exists_ok (x := (twiceDefined.recordsOf .enumeration).foldlM addEnum
    (withBuiltins 4)) (by decide +kernel)
  have htangled : ((twiceDefined.recordsOf .enumeration).foldlM addEnum (withBuiltins 4) >>=
      tangled.foldlM addTypedef).toOption.isSome = true := by decide +kernel
  rw [hstore] at htangled
  have hclear := ((defined_enums hstore).succeeds_iff tangled).mp (exists_ok htangled)
  have hkeys : (twiceDefined.recordsOf .typeDef).map Record.key =
      tangled.map Record.key ++ [.root "node"] := by decide +kernel
  obtain ⟨-, hfault, htargets⟩ := first_conflict_ends_typedefs hstore
  have herror := (hfault _).mpr ⟨_, _, [], hkeys,
    .inr (.inr (.inr ⟨by decide +kernel, by decide +kernel⟩)), hclear, rfl⟩
  have hkind : foundKind ((twiceDefined.recordsOf .enumeration).map Record.key)
      (tangled.map Record.key) (.root "node") = .typedef := by decide +kernel
  rw [hkind] at herror
  exact ⟨store, hstore, herror, (htargets _ (by decide +kernel) _).mpr herror⟩

end Declaration

end BinaryAtlas
