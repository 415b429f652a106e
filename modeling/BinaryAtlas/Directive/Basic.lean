-- Directives: cross references that the comment of a struct member may hold.
-- A directive that names a type has a reference to it; what a reference is,
-- is left open here.

namespace BinaryAtlas

inductive Directive (Ref : Type) where
  /-- The member points at the type. -/
  | pointsTo (path : String) (target : Ref)
  /-- The member is to be read as the type. -/
  | readAs (path : String) (target : Ref)
  /-- The count of the member's items stands in another member. -/
  | lengthFrom (member : String)
  /-- A directive for a member inside this one. -/
  | child (path : String) (directive : Directive Ref)
deriving DecidableEq

namespace Directive

variable {Ref Ref' : Type}

def path : Directive Ref → String
  | pointsTo path _ => path
  | readAs path _ => path
  | lengthFrom member => member
  | child path _ => path

/-- The type that the directive refers to, directly or for a member inside. -/
def target? : Directive Ref → Option Ref
  | pointsTo _ target => some target
  | readAs _ target => some target
  | lengthFrom _ => none
  | child _ directive => directive.target?

/-- The directive with another reference in the place of its own. -/
def map (f : Ref → Ref') : Directive Ref → Directive Ref'
  | pointsTo path target => pointsTo path (f target)
  | readAs path target => readAs path (f target)
  | lengthFrom member => lengthFrom member
  | child path directive => child path (directive.map f)

/-- The directive with its reference exchanged step by step, as `map` does at
once. -/
def mapM {m : Type → Type} [Monad m] (f : Ref → m Ref') : Directive Ref → m (Directive Ref')
  | pointsTo path target => return pointsTo path (← f target)
  | readAs path target => return readAs path (← f target)
  | lengthFrom member => return lengthFrom member
  | child path directive => return child path (← directive.mapM f)

@[simp]
theorem target?_map (f : Ref → Ref') (d : Directive Ref) : (d.map f).target? = d.target?.map f := by
  induction d <;> simp_all [map, target?]

@[simp]
theorem path_map (f : Ref → Ref') (d : Directive Ref) : (d.map f).path = d.path := by
  cases d <;> rfl

end Directive

end BinaryAtlas
