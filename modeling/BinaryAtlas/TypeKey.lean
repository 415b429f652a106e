-- Type keys: the identity of every type, global and function. A key is a
-- name in a scope; a scope is a path of names cut by slashes, and the empty
-- scope is the root.
import BinaryAtlas.Text.Blank

namespace BinaryAtlas

structure TypeKey where
  scope : String
  name : String
deriving DecidableEq, Inhabited

namespace TypeKey

/-! ## Order -/

/-- Keys stand in the order of their scopes, and in one scope in the order
of their names. -/
instance : Ord TypeKey := ⟨compareLex (compareOn scope) (compareOn name)⟩

instance : Std.TransOrd TypeKey :=
  inferInstanceAs (Std.TransCmp (compareLex (compareOn scope) (compareOn name)))

instance : Std.LawfulEqOrd TypeKey where
  eq_of_compare {a b} h := by
    change compareLex (compareOn scope) (compareOn name) a b = .eq at h
    rw [compareLex_eq_eq] at h
    have hs : a.scope = b.scope := Std.LawfulEqCmp.eq_of_compare h.1
    have hn : a.name = b.name := Std.LawfulEqCmp.eq_of_compare h.2
    cases a; cases b; simp_all

/-- The keys in ascending order. -/
def sorted (keys : List TypeKey) : List TypeKey :=
  keys.mergeSort fun a b => (compare a b).isLE

/-! ## Making keys -/

/-- The key of a name in a scope; one leading slash of the scope counts for
nothing. -/
def of (scope name : String) : TypeKey :=
  { scope := .ofList (Text.dropSlash scope.toList), name }

def root (name : String) : TypeKey := of "" name

/-- The key that a path spells: the name follows the last slash. Only the
empty path spells none. -/
def parse? (path : String) : Option TypeKey :=
  match path.toList with
  | [] => none
  | cs =>
    match Text.splitLast '/' (Text.dropSlash cs) with
    | some (scope, name) => some (of (.ofList scope) (.ofList name))
    | none => some (root (.ofList (Text.dropSlash cs)))

/-- The key of another name in the same scope. -/
def withName (key : TypeKey) (name : String) : TypeKey := { key with name }

/-- The key without blanks around its scope and its name. -/
def trimmed (key : TypeKey) : TypeKey := of (Text.trimmed key.scope) (Text.trimmed key.name)

/-! ## Writing -/

def path (key : TypeKey) : String := key.scope ++ "/" ++ key.name

end TypeKey

end BinaryAtlas
