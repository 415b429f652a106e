-- What declarations come to. A shape that a record declares is described by
-- the record: its numbers and names are those of the record, its parts stand
-- in the order of the records inside, and each of its references leads to a
-- type of the key that the record names.
import BinaryAtlas.Program.Declarations
import BinaryAtlas.Proofs.References
import BinaryAtlas.Proofs.StoreIndex
import Mathlib.Data.List.Forall2

namespace BinaryAtlas

/-! ## Records that declare -/

/-- The keys of the primitives that every program has. -/
def Builtin.primitiveKeys : List TypeKey := (fixed.map Prod.fst ++ pointerSized).map .root

/-- The record declares a type of the key. A type definition of a builtin
primitive declares nothing. -/
def Record.declares (record : Record) (key : TypeKey) : Bool :=
  record.key == key && !(record.kind == .typeDef && Builtin.primitiveKeys.contains key)

/-- The last of the records that declares a type of the key. -/
def Record.lastToDeclare? (records : List Record) (key : TypeKey) : Option Record :=
  (records.filter (·.declares key)).getLast?

/-- The records of an export that may declare types, kind by kind. -/
def Export.declarations (doc : Export) : List Record :=
  [.enumeration, .typeDef, .functionDef, .layout, .union].flatMap doc.recordsOf

namespace Record

theorem lastToDeclare?_append (records : List Record) (record : Record) (key : TypeKey) :
    lastToDeclare? (records ++ [record]) key =
      if record.declares key then some record else lastToDeclare? records key := by
  unfold lastToDeclare?
  rw [List.filter_append, List.getLast?_append]
  by_cases h : record.declares key <;> simp [h]

theorem key_of_declares {record : Record} {key : TypeKey} (h : record.declares key = true) :
    record.key = key := by
  unfold declares at h
  simp only [Bool.and_eq_true, beq_iff_eq] at h
  exact h.1

/-- Only type definitions may declare nothing. -/
theorem declares_of_kind {record : Record} {kind : RecordKind} (h : record.kind = kind)
    (hkind : kind ≠ .typeDef) : record.declares record.key = true := by
  simp [declares, h, hkind]

end Record

/-- What stands in the second of two lists that go together has something in the first. -/
theorem exists_of_forall₂ {α β : Type} {R : α → β → Prop} {xs : List α} {ys : List β}
    (h : List.Forall₂ R xs ys) {y : β} (hy : y ∈ ys) : ∃ x ∈ xs, R x y := by
  induction h with
  | nil => cases hy
  | @cons x _ xs _ hxy _ ih =>
    rcases List.mem_cons.mp hy with rfl | hy
    · exact ⟨x, List.mem_cons_self, hxy⟩
    · obtain ⟨x', hx', hr⟩ := ih hy
      exact ⟨x', List.mem_cons_of_mem _ hx', hr⟩

/-! ## Shapes that a record describes -/

/-- The member without its directives. -/
def Member.bare (m : Member) : Member := { m with directives := [] }

namespace Declaration

/-- Each value has the name of the last record that gives it. -/
def DescribesElements (entries : List Record) (elements : Std.ExtTreeMap UInt32 String) : Prop :=
  ∀ value, elements[value]? =
    ((entries.filter fun entry => (entry.number "VALUE").toOption == some value).getLast?).map
      (·.attributeOrEmpty "NAME")

structure DescribesParameter (store : TypeStore) (record : Record) (p : Parameter) : Prop where
  ordinal : record.number "ORDINAL" = .ok p.ordinal
  name : p.name = record.attributeOrEmpty "NAME"
  size : record.number "SIZE" = .ok p.size
  type : store.keyAt? p.type = some record.dataTypeKey

structure DescribesMember (kind : LayoutKind) (store : TypeStore) (record : Record)
    (m : Member) : Prop where
  name : m.name = if record.attributeOrEmpty "NAME" = "" then unnamed m.offset
    else record.attributeOrEmpty "NAME"
  offset : record.number "OFFSET" = .ok m.offset
  size : record.number "SIZE" = .ok m.size
  comment : m.comment = kind.comment? record
  type : store.keyAt? m.type = some record.dataTypeKey

structure DescribesLayout (kind : LayoutKind) (store : TypeStore) (record : Record)
    (layout : Layout) : Prop where
  size : record.number "SIZE" = .ok layout.size
  members : List.Forall₂ (DescribesMember kind store) (record.childrenOf .member) layout.members

inductive Describes (store : TypeStore) (record : Record) : Shape → Prop
  | enumeration {size : UInt32} {elements : Std.ExtTreeMap UInt32 String} :
      record.kind = .enumeration → record.number "SIZE" = .ok size →
      DescribesElements (record.childrenOf .enumEntry) elements →
      Describes store record (.enumeration size elements)
  | typedef {target : Slot} :
      record.kind = .typeDef → store.keyAt? target = some record.dataTypeKey →
      Describes store record (.typedef target)
  | signature {result : Slot} {parameters : List Parameter} :
      record.kind = .functionDef →
      store.keyAt? result =
        some (((record.firstChild? .returnType).map Record.dataTypeKey).getD (.root "void")) →
      List.Forall₂ (DescribesParameter store) (record.childrenOf .parameter) parameters →
      Describes store record (.signature result parameters)
  | struct {layout : Layout} :
      record.kind = .layout → DescribesLayout .struct store record layout →
      Describes store record (.struct layout)
  | union {layout : Layout} :
      record.kind = .union → DescribesLayout .union store record layout →
      Describes store record (.union layout)

section

variable {store store' : TypeStore} {record : Record} {shape : Shape}

theorem Describes.declared (h : Describes store record shape) :
    shape.kind ≠ .primitive ∧ shape.isPlaceholder = false := by
  cases h <;> exact ⟨nofun, rfl⟩

/-- A description holds on when references move to types of the same keys. -/
theorem Describes.mapRefs {f : Slot → Slot}
    (hkeys : ∀ r key, store.keyAt? r = some key → store'.keyAt? (f r) = some key)
    (h : Describes store record shape) : Describes store' record (shape.mapRefs f) := by
  have hmember {kind : LayoutKind} {record : Record} {m : Member}
      (hm : DescribesMember kind store record m) :
      DescribesMember kind store' record (m.mapRefs f) :=
    { hm with type := hkeys _ _ hm.type }
  have hlayout {kind : LayoutKind} {record : Record} {layout : Layout}
      (hl : DescribesLayout kind store record layout) :
      DescribesLayout kind store' record (layout.mapRefs f) := by
    refine ⟨hl.size, ?_⟩
    rw [Layout.mapRefs, List.forall₂_map_right_iff]
    exact hl.members.imp fun _ _ hm => hmember hm
  cases h with
  | enumeration hkind hsize helements => exact .enumeration hkind hsize helements
  | typedef hkind htarget => exact .typedef hkind (hkeys _ _ htarget)
  | signature hkind hresult hparameters =>
    refine .signature hkind (hkeys _ _ hresult) ?_
    rw [List.forall₂_map_right_iff]
    exact hparameters.imp fun _ _ hp => { hp with type := hkeys _ _ hp.type }
  | struct hkind hl => exact .struct hkind (hlayout hl)
  | union hkind hl => exact .union hkind (hlayout hl)

/-- A description holds on in a store that keeps the keys of all slots. -/
theorem Describes.keeps
    (hkeys : ∀ r key, store.keyAt? r = some key → store'.keyAt? r = some key)
    (h : Describes store record shape) : Describes store' record shape := by
  rw [← Shape.mapRefs_id shape]
  exact h.mapRefs hkeys

/-- A description leaves it open which directives the members have. -/
theorem Describes.withLayout {layout : Layout} {members : List Member}
    (hlayout : shape.layout? = some layout)
    (hmembers : members.map Member.bare = layout.members.map Member.bare)
    (h : Describes store record shape) :
    Describes store record (shape.withLayout { layout with members }) := by
  have hbare {kind : LayoutKind} {records : List Record} (members : List Member) :
      List.Forall₂ (DescribesMember kind store) records (members.map Member.bare) ↔
        List.Forall₂ (DescribesMember kind store) records members := by
    rw [List.forall₂_map_right_iff]
    constructor
    · exact fun h => h.imp fun _ _ hm => { hm with }
    · exact fun h => h.imp fun _ _ hm => { hm with }
  have hdescribes {kind : LayoutKind} (hl : DescribesLayout kind store record layout) :
      DescribesLayout kind store record { layout with members } := by
    refine ⟨hl.size, ?_⟩
    rw [← hbare, hmembers, hbare]
    exact hl.members
  cases h with
  | struct hkind hl =>
    obtain rfl := Option.some.inj hlayout
    exact .struct hkind (hdescribes hl)
  | union hkind hl =>
    obtain rfl := Option.some.inj hlayout
    exact .union hkind (hdescribes hl)
  | _ => cases hlayout

end

end Declaration

end BinaryAtlas
