-- Declarations: the types that an export declares, kind by kind. A type that
-- a record refers to is asked for by its key, so a declaration may stand
-- after its uses; until then a placeholder stands for it.
import BinaryAtlas.Export.Record
import BinaryAtlas.TypeGraph.Store

namespace BinaryAtlas.Declaration

/-! ## Enums -/

/-- One more element; an element of that value gives way. -/
def addElement (elements : Std.ExtTreeMap UInt32 String) (entry : Record) :
    Except Fault (Std.ExtTreeMap UInt32 String) := do
  let value ← entry.number "VALUE"
  .ok (elements.insert value (entry.attributeOrEmpty "NAME"))

def addEnum (store : TypeStore) (record : Record) : Except Fault TypeStore := do
  let elements ← (record.childrenOf .enumEntry).foldlM addElement ∅
  let size ← record.number "SIZE"
  .ok (store.add { key := record.key, shape := .enumeration size elements }).2

/-! ## Type definitions -/

/-- The store with a type definition. The key of a primitive keeps the primitive, and
any other key must not have a type yet. -/
def addTypedef (store : TypeStore) (record : Record) : Except Fault TypeStore :=
  let (target, store) := store.get record.dataTypeKey
  let (existing, store) := store.get record.key
  match store.entity? existing with
  | none => .ok store
  | some e =>
    match e.shape with
    | .placeholder => .ok (store.add { key := record.key, shape := .typedef target }).2
    | .primitive _ => .ok store
    | _ => .error (.conflictingDeclaration record.key e.kind e.key)

/-! ## Records inside a declaration -/

/-- The parts of a declaration, read one after the other. -/
def readAll {Part : Type} (read : TypeStore → Record → Except Fault (Part × TypeStore)) :
    TypeStore → List Record → Except Fault (List Part × TypeStore)
  | store, [] => .ok ([], store)
  | store, record :: records => do
    let (part, store) ← read store record
    let (parts, store) ← readAll read store records
    .ok (part :: parts, store)

/-! ## Signatures -/

def readParameter (store : TypeStore) (record : Record) : Except Fault (Parameter × TypeStore) := do
  let ordinal ← record.number "ORDINAL"
  let size ← record.number "SIZE"
  let (type, store) := store.get record.dataTypeKey
  .ok ({ ordinal, name := record.attributeOrEmpty "NAME", size, type }, store)

/-- What a function without a return type returns. -/
def defaultResult : TypeKey := .root "void"

/-- The key of the type that a signature returns. -/
def resultKey (record : Record) : TypeKey :=
  match record.firstChild? .returnType with
  | some result => result.dataTypeKey
  | none => defaultResult

def addSignature (store : TypeStore) (record : Record) : Except Fault TypeStore := do
  let (result, store) := store.get (resultKey record)
  let (parameters, store) ← readAll readParameter store (record.childrenOf .parameter)
  .ok (store.add { key := record.key, shape := .signature result parameters }).2

/-! ## Structs and unions -/

/-- Structs and unions. -/
inductive LayoutKind
  | struct
  | union
deriving DecidableEq

namespace LayoutKind

def recordKind : LayoutKind → RecordKind
  | struct => .layout
  | union => .union

def shape : LayoutKind → Layout → Shape
  | struct => .struct
  | union => .union

/-- The comment of a member: a record inside the member of a struct, and an
attribute of the member of a union. -/
def comment? : LayoutKind → Record → Option String
  | struct, member => (member.firstChild? .comment).map fun comment => comment.text.getD ""
  | union, member => member.attribute? "COMMENT"

end LayoutKind

/-- The name of a member without a name of its own: its offset in upper-case
hexadecimal digits. -/
def unnamed (offset : UInt32) : String :=
  "unk" ++ .ofList ((Nat.toDigits 16 offset.toNat).map Char.toUpper)

def readMember (kind : LayoutKind) (store : TypeStore) (record : Record) :
    Except Fault (Member × TypeStore) := do
  let (type, store) := store.get record.dataTypeKey
  let offset ← record.number "OFFSET"
  let size ← record.number "SIZE"
  let given := record.attributeOrEmpty "NAME"
  let name := if given = "" then unnamed offset else given
  .ok ({ name, type, offset, size, comment := kind.comment? record }, store)

def addLayout (kind : LayoutKind) (store : TypeStore) (record : Record) :
    Except Fault TypeStore := do
  let (members, store) ← readAll (readMember kind) store (record.childrenOf .member)
  let size ← record.number "SIZE"
  .ok (store.add { key := record.key, shape := kind.shape { size, members } }).2

/-- The store with all structs or all unions of an export. -/
def addLayouts (kind : LayoutKind) (store : TypeStore) (doc : Export) : Except Fault TypeStore :=
  (doc.recordsOf kind.recordKind).foldlM (addLayout kind) store

/-! ## All declarations -/

/-- The store with all declarations of an export: enums, type definitions, signatures,
structs, unions, each kind in the order of the export. -/
def addAll (store : TypeStore) (doc : Export) : Except Fault TypeStore := do
  let store ← (doc.recordsOf .enumeration).foldlM addEnum store
  let store ← (doc.recordsOf .typeDef).foldlM addTypedef store
  let store ← (doc.recordsOf .functionDef).foldlM addSignature store
  let store ← addLayouts .struct store doc
  addLayouts .union store doc

end BinaryAtlas.Declaration
