-- The namespace tree. A node has a name, a parent, children in an order, and
-- members, which are places in the list of globals. Nodes are numbered as
-- they come, the root first, and are found by their paths.
import BinaryAtlas.Text.Blank
import Std.Data.ExtTreeMap

namespace BinaryAtlas

structure Namespace where
  /-- The last part of the path; the root has none. -/
  name : String
  parent : Option Nat
  children : List Nat := []
  members : List Nat := []
deriving DecidableEq, Inhabited

structure NamespaceTree where
  nodes : Array Namespace
  byPath : Std.ExtTreeMap String Nat

namespace NamespaceTree

/-! ## Making trees -/

def root : Nat := 0

def empty : NamespaceTree :=
  { nodes := #[{ name := "", parent := none }]
    byPath := (∅ : Std.ExtTreeMap String Nat).insert "" root }

def size (tree : NamespaceTree) : Nat := tree.nodes.size

def node? (tree : NamespaceTree) (id : Nat) : Option Namespace := tree.nodes[id]?

/-! ## Paths -/

/-- The path of the parent, and the name after it. -/
def parentAndName (path : List Char) : List Char × List Char :=
  (Text.splitLast '/' path).getD ([], path)

/-- The node of a path, if there is one; one leading slash counts for
nothing. -/
def get? (tree : NamespaceTree) (path : String) : Option Nat :=
  tree.byPath[String.ofList (Text.dropSlash path.toList)]?

/-- One more node under a parent. -/
def addChild (tree : NamespaceTree) (parent : Nat) (name path : String) : Nat × NamespaceTree :=
  let id := tree.nodes.size
  (id,
    { nodes := (tree.nodes.push { name, parent := some parent }).modify parent fun node =>
        { node with children := node.children ++ [id] }
      byPath := tree.byPath.insert path id })

theorem length_dropSlash_le (path : List Char) : (Text.dropSlash path).length ≤ path.length := by
  unfold Text.dropSlash
  split <;> simp

theorem length_parent_lt {path : List Char} (h : path ≠ []) :
    (parentAndName path).1.length < path.length := by
  unfold parentAndName
  cases hs : Text.splitLast '/' path with
  | none => simpa using List.length_pos_iff.2 h
  | some parts =>
    obtain ⟨above, name⟩ := parts
    rw [Text.splitLast_eq_some hs]
    simp

/-- The node of a path, after it and the missing nodes above it have been
made. -/
def getOrAddChars (tree : NamespaceTree) (path : List Char) : Nat × NamespaceTree :=
  let path' := Text.dropSlash path
  match tree.byPath[String.ofList path']? with
  | some id => (id, tree)
  | none =>
    if _h : path' = [] then (root, tree)
    else
      let (parent, tree) := getOrAddChars tree (parentAndName path').1
      tree.addChild parent (.ofList (parentAndName path').2) (.ofList path')
termination_by path.length
decreasing_by
  have h1 : (parentAndName (Text.dropSlash path)).1.length < (Text.dropSlash path).length :=
    length_parent_lt _h
  have h2 := length_dropSlash_le path
  omega

/-- `getOrAddChars` on a string. -/
def getOrAdd (tree : NamespaceTree) (path : String) : Nat × NamespaceTree :=
  tree.getOrAddChars path.toList

/-- The names from below the root down to a node. -/
def namesTo (tree : NamespaceTree) (id : Nat) : List String :=
  match tree.node? id with
  | none => []
  | some node =>
    match node.parent with
    | none => []
    | some parent => if _h : parent < id then namesTo tree parent ++ [node.name] else [node.name]
termination_by id

def pathOf (tree : NamespaceTree) (id : Nat) : String := "/".intercalate (tree.namesTo id)

/-! ## Members and order -/

/-- The tree with one more member in a node, after the others. -/
def addMember (tree : NamespaceTree) (id member : Nat) : NamespaceTree :=
  { tree with
    nodes := tree.nodes.modify id fun node => { node with members := node.members ++ [member] } }

/-- The name of a node, for the order of children. -/
def nameOf (tree : NamespaceTree) (id : Nat) : String :=
  match tree.node? id with
  | some node => node.name
  | none => ""

/-- One child stands before another: by their names, then by their numbers. -/
def childLe (tree : NamespaceTree) (a b : Nat) : Bool :=
  match compare (tree.nameOf a) (tree.nameOf b) with
  | .lt => true
  | .eq => a ≤ b
  | .gt => false

/-- The tree with the children of every node in order, and its members in
the order that is given. Members that stand level keep their order. -/
def sort (tree : NamespaceTree) (memberLe : Nat → Nat → Bool) : NamespaceTree :=
  { tree with
    nodes := tree.nodes.map fun node =>
      { node with
        children := node.children.mergeSort tree.childLe
        members := node.members.mergeSort memberLe } }

/-! ## The walk -/

/-- The nodes under a node and the node itself, each with its depth; parents
come before their children. -/
def walkFrom (tree : NamespaceTree) (depth id : Nat) : List (Nat × Nat) :=
  match tree.node? id with
  | none => []
  | some node =>
    (depth, id) :: node.children.flatMap fun child =>
      if _h : id < child ∧ child < tree.nodes.size then walkFrom tree (depth + 1) child else []
termination_by tree.nodes.size - id
decreasing_by omega

/-- All nodes, each with its depth. -/
def walk (tree : NamespaceTree) : List (Nat × Nat) := tree.walkFrom 0 root

end NamespaceTree

end BinaryAtlas
