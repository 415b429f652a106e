-- Entities: the types of a program. An entity has a key and a shape, and it
-- refers to other entities by the slots that hold them, so that types may
-- refer to each other in circles.
import BinaryAtlas.Directive.Basic
import BinaryAtlas.TypeGraph.Kind
import BinaryAtlas.TypeKey
import Std.Data.ExtTreeMap

namespace BinaryAtlas

/-- The place of an entity in its store. A place is meant to fit in 32 bits, so
stores of fewer than 2 ^ 32 entities are meant throughout. -/
abbrev Slot := Nat

/-! ## Parts -/

/-- A member of a struct or union. -/
structure Member where
  name : String
  type : Slot
  offset : UInt32
  size : UInt32
  comment : Option String := none
  directives : List (Directive Slot) := []

/-- The layout of a struct or union. The size is declared, not summed up. -/
structure Layout where
  size : UInt32
  members : List Member

/-- A parameter of a function signature. -/
structure Parameter where
  ordinal : UInt32
  name : String
  size : UInt32
  type : Slot

/-- What an entity is, its key apart. -/
inductive Shape
  | primitive (size : UInt32)
  | enumeration (size : UInt32) (elements : Std.ExtTreeMap UInt32 String)
  | struct (layout : Layout)
  | union (layout : Layout)
  | signature (result : Slot) (parameters : List Parameter)
  | typedef (target : Slot)
  | pointer (pointee : Slot)
  | array (element : Slot) (count : UInt32)
  /-- Text of any length. -/
  | string
  /-- A stand-in of no size for a key without a declaration. -/
  | placeholder

structure Entity where
  key : TypeKey
  shape : Shape

/-! ## Members -/

namespace Member

/-- The slots that the member refers to. -/
def refs (m : Member) : List Slot := m.directives.filterMap (·.target?) ++ [m.type]

/-- The member with other references. -/
def mapRefs (f : Slot → Slot) (m : Member) : Member :=
  { m with type := f m.type, directives := m.directives.map (·.map f) }

/-- The member with its references exchanged one by one, in the order of
`refs`. -/
def mapRefsM {n : Type → Type} [Monad n] (f : Slot → n Slot) (m : Member) : n Member := do
  let directives ← m.directives.mapM (·.mapM f)
  let type ← f m.type
  return { m with type, directives }

end Member

namespace Layout

def memberNames (layout : Layout) : List String :=
  layout.members.map fun m => "[" ++ m.name ++ "]"

def member? (layout : Layout) (name : String) : Option Member :=
  layout.members.find? (·.name == name)

/-- The layout with other references. -/
def mapRefs (f : Slot → Slot) (layout : Layout) : Layout :=
  { layout with members := layout.members.map (·.mapRefs f) }

/-- The layout with its references exchanged one by one. -/
def mapRefsM {m : Type → Type} [Monad m] (f : Slot → m Slot) (layout : Layout) : m Layout := do
  return { layout with members := ← layout.members.mapM (·.mapRefsM f) }

end Layout

/-- The parameter with its reference exchanged. -/
def Parameter.mapRefsM {m : Type → Type} [Monad m] (f : Slot → m Slot) (p : Parameter) :
    m Parameter := do
  return { p with type := ← f p.type }

/-! ## Shapes -/

namespace Shape

def kind : Shape → TypeKind
  | primitive _ => .primitive
  | enumeration _ _ => .enumeration
  | struct _ => .struct
  | union _ => .union
  | signature _ _ => .signature
  | typedef _ => .typedef
  | pointer _ => .pointer
  | array _ _ => .array
  | string => .string
  | placeholder => .placeholder

def isPlaceholder : Shape → Bool
  | placeholder => true
  | _ => false

def layout? : Shape → Option Layout
  | struct layout => some layout
  | union layout => some layout
  | _ => none

/-- The shape with another layout, if it has one at all. -/
def withLayout (layout : Layout) : Shape → Shape
  | struct _ => struct layout
  | union _ => union layout
  | shape => shape

/-- The slots that the shape refers to. -/
def refs : Shape → List Slot
  | struct layout => layout.members.flatMap Member.refs
  | union layout => layout.members.flatMap Member.refs
  | signature result parameters => result :: parameters.map Parameter.type
  | typedef target => [target]
  | pointer pointee => [pointee]
  | array element _ => [element]
  | primitive _ => []
  | enumeration _ _ => []
  | string => []
  | placeholder => []

/-- The shape with other references. -/
def mapRefs (f : Slot → Slot) : Shape → Shape
  | struct layout => struct (layout.mapRefs f)
  | union layout => union (layout.mapRefs f)
  | signature result parameters =>
    signature (f result) (parameters.map fun p => { p with type := f p.type })
  | typedef target => typedef (f target)
  | pointer pointee => pointer (f pointee)
  | array element count => array (f element) count
  | primitive size => primitive size
  | enumeration size elements => enumeration size elements
  | string => string
  | placeholder => placeholder

/-- The shape with its references exchanged one by one, in the order of
`refs`. -/
def mapRefsM {m : Type → Type} [Monad m] (f : Slot → m Slot) : Shape → m Shape
  | struct layout => return struct (← layout.mapRefsM f)
  | union layout => return union (← layout.mapRefsM f)
  | signature result parameters => do
    let result ← f result
    return signature result (← parameters.mapM (·.mapRefsM f))
  | typedef target => return typedef (← f target)
  | pointer pointee => return pointer (← f pointee)
  | array element count => return array (← f element) count
  | primitive size => return primitive size
  | enumeration size elements => return enumeration size elements
  | string => return string
  | placeholder => return placeholder

@[simp]
theorem kind_mapRefs (f : Slot → Slot) (shape : Shape) : (shape.mapRefs f).kind = shape.kind := by
  cases shape <;> rfl

/-- Other references stand where the old ones stood. -/
theorem refs_mapRefs (f : Slot → Slot) (shape : Shape) :
    (shape.mapRefs f).refs = shape.refs.map f := by
  have targets (ds : List (Directive Slot)) :
      (ds.map (·.map f)).filterMap (·.target?) = (ds.filterMap (·.target?)).map f := by
    rw [List.filterMap_map, List.map_filterMap]
    congr 1
    funext d
    exact d.target?_map f
  have member (m : Member) : (m.mapRefs f).refs = m.refs.map f := by
    simp [Member.refs, Member.mapRefs, targets]
  cases shape <;>
    simp [mapRefs, refs, Layout.mapRefs, List.flatMap_map, List.map_flatMap, member]

end Shape

/-! ## Entities -/

namespace Entity

def kind (e : Entity) : TypeKind := e.shape.kind

def label (e : Entity) : String := e.kind.word ++ " " ++ e.key.path

/-- The slots that the entity refers to. -/
def refs (e : Entity) : List Slot := e.shape.refs

/-- The entity with other references. -/
def mapRefs (f : Slot → Slot) (e : Entity) : Entity := { e with shape := e.shape.mapRefs f }

end Entity

end BinaryAtlas
