-- The laws of the links of the namespace tree. The parents of the nodes and
-- the children of the nodes are two records of the same tree: whatever is
-- asked for, added and sorted, in whatever order and with whatever paths, a
-- node stands once among the children of its parent, and nowhere else.
import BinaryAtlas.Proofs.NamespaceTree
import Mathlib.Data.List.Nodup
import Mathlib.Logic.Relation

namespace BinaryAtlas.NamespaceTree

/-! ## Parents and children -/

/-- The children of a node, and none where there is no node. -/
def childrenOf (tree : NamespaceTree) (id : Nat) : List Nat :=
  ((tree.node? id).map Namespace.children).getD []

def parentOf? (tree : NamespaceTree) (id : Nat) : Option Nat :=
  (tree.node? id).bind Namespace.parent

/-- The parents and the children agree, and every node but the root has a
parent that was made before it. -/
structure Linked (tree : NamespaceTree) : Prop where
  rooted : Rooted tree
  parentOf?_root : tree.parentOf? root = none
  exists_parent : ∀ id < tree.nodes.size, id ≠ root → ∃ parent, tree.parentOf? id = some parent
  parent_lt : ∀ {id parent : Nat}, tree.parentOf? id = some parent → parent < id
  mem_childrenOf : ∀ {id parent : Nat},
    id ∈ tree.childrenOf parent ↔ tree.parentOf? id = some parent
  nodup_childrenOf : ∀ id, (tree.childrenOf id).Nodup

theorem lt_of_parentOf? {tree : NamespaceTree} {id parent : Nat}
    (h : tree.parentOf? id = some parent) : id < tree.nodes.size := by
  obtain ⟨node, hnode, -⟩ := Option.bind_eq_some_iff.mp h
  exact (Array.getElem?_eq_some_iff.mp hnode).1

theorem Rooted.root_lt {tree : NamespaceTree} (h : Rooted tree) : root < tree.nodes.size :=
  h.inside h.top

theorem Linked.lt_of_mem {tree : NamespaceTree} (h : Linked tree) {id parent : Nat}
    (hmem : id ∈ tree.childrenOf parent) : parent < id ∧ id < tree.nodes.size := by
  have hparent := h.mem_childrenOf.mp hmem
  exact ⟨h.parent_lt hparent, lt_of_parentOf? hparent⟩

/-- There is no node but the root in the empty tree. -/
theorem eq_root_of_lt {id : Nat} (hid : id < empty.nodes.size) : id = root := Nat.lt_one_iff.mp hid

theorem linked_empty : Linked empty where
  rooted := rooted_empty
  parentOf?_root := rfl
  exists_parent id hid hroot := absurd (eq_root_of_lt hid) hroot
  parent_lt := by
    intro id parent h
    obtain rfl := eq_root_of_lt (lt_of_parentOf? h)
    cases h
  mem_childrenOf := by
    intro id parent
    cases id <;> cases parent <;> simp [empty, childrenOf, parentOf?, node?]
  nodup_childrenOf := by
    intro id
    cases id <;> simp [empty, childrenOf, node?]

/-! ## A new node -/

section

variable {tree : NamespaceTree} {parent : Nat} {name path : String}

theorem node?_addChild (hparent : parent < tree.nodes.size) (id : Nat) :
    (tree.addChild parent name path).2.node? id =
      if id = tree.nodes.size then some { name, parent := some parent }
      else (tree.node? id).map fun node =>
        if id = parent then { node with children := node.children ++ [tree.nodes.size] }
        else node := by
  unfold node? addChild
  simp only [Array.getElem?_modify, Array.getElem?_push]
  by_cases hid : id = tree.nodes.size
  · simp [hid, Nat.ne_of_lt hparent]
  · by_cases hp : parent = id
    · simp [hp, hid]
    · simp [hp, hid, Ne.symm hp]

theorem node?_size (tree : NamespaceTree) : tree.node? tree.nodes.size = none :=
  Array.getElem?_eq_none (Nat.le_refl _)

theorem parentOf?_addChild (hparent : parent < tree.nodes.size) (id : Nat) :
    (tree.addChild parent name path).2.parentOf? id =
      if id = tree.nodes.size then some parent else tree.parentOf? id := by
  unfold parentOf?
  rw [node?_addChild hparent]
  split
  · rfl
  · cases tree.node? id with
    | none => rfl
    | some node => by_cases hp : id = parent <;> simp [hp]

theorem childrenOf_addChild (hparent : parent < tree.nodes.size) (id : Nat) :
    (tree.addChild parent name path).2.childrenOf id =
      tree.childrenOf id ++ if id = parent then [tree.nodes.size] else [] := by
  unfold childrenOf
  rw [node?_addChild hparent]
  by_cases hid : id = tree.nodes.size
  · rw [if_pos hid, if_neg (by omega), hid, node?_size]
    rfl
  · rw [if_neg hid]
    by_cases hp : id = parent
    · subst hp
      have hnode : tree.node? id = some tree.nodes[id] := Array.getElem?_eq_getElem hparent
      simp [hnode]
    · simp [hp]

theorem nameOf_addChild (hparent : parent < tree.nodes.size) (id : Nat) :
    (tree.addChild parent name path).2.nameOf id =
      if id = tree.nodes.size then name else tree.nameOf id := by
  unfold nameOf
  rw [node?_addChild hparent]
  by_cases hid : id = tree.nodes.size
  · rw [if_pos hid, if_pos hid]
  · rw [if_neg hid, if_neg hid]
    cases tree.node? id with
    | none => rfl
    | some node => by_cases hp : id = parent <;> simp [hp]

theorem size_addChild :
    (tree.addChild parent name path).2.nodes.size = tree.nodes.size + 1 := by
  simp [addChild]

theorem linked_addChild (h : Linked tree) (hparent : parent < tree.nodes.size)
    (hpath : tree.byPath[path]? = none) : Linked (tree.addChild parent name path).2 := by
  have hold {id above : Nat} (habove : tree.parentOf? id = some above) :
      id ≠ tree.nodes.size := Nat.ne_of_lt (lt_of_parentOf? habove)
  have hroot := h.rooted.root_lt
  constructor
  case rooted => exact rooted_addChild h.rooted hpath
  case parentOf?_root =>
    rw [parentOf?_addChild hparent, if_neg (Nat.ne_of_lt hroot), h.parentOf?_root]
  case exists_parent =>
    intro id hid hne
    rw [size_addChild] at hid
    rw [parentOf?_addChild hparent]
    split
    · exact ⟨parent, rfl⟩
    · exact h.exists_parent id (by omega) hne
  case parent_lt =>
    intro id above habove
    rw [parentOf?_addChild hparent] at habove
    split at habove
    · obtain rfl := Option.some.inj habove
      omega
    · exact h.parent_lt habove
  case mem_childrenOf =>
    intro id above
    rw [childrenOf_addChild hparent, parentOf?_addChild hparent, List.mem_append,
      h.mem_childrenOf]
    by_cases hid : id = tree.nodes.size
    · subst hid
      have hnone : tree.parentOf? tree.nodes.size = none := by rw [parentOf?, node?_size]; rfl
      by_cases habove : above = parent
      · simp [habove]
      · simp [hnone, habove, Ne.symm habove]
    · by_cases habove : above = parent <;> simp [hid, habove]
  case nodup_childrenOf =>
    intro id
    rw [childrenOf_addChild hparent]
    split
    · refine List.nodup_append.mpr ⟨h.nodup_childrenOf id, List.nodup_singleton _, ?_⟩
      intro child hchild other hother
      rw [List.mem_singleton] at hother
      exact hother ▸ hold (h.mem_childrenOf.mp hchild)
    · rw [List.append_nil]
      exact h.nodup_childrenOf id

end

/-! ## The other operations -/

section

variable {tree : NamespaceTree}

theorem linked_getOrAddChars (h : Linked tree) (path : List Char) :
    Linked (tree.getOrAddChars path).2 := by
  fun_induction getOrAddChars tree path with
  | case1 => exact h
  | case2 => exact h
  | case3 path path' hnone hne parent grown heq ih =>
    have hfinds := getOrAddChars_finds h.rooted (parentAndName path').1
    rw [heq] at ih hfinds
    have hmissing : grown.byPath[String.ofList path']? = none := by
      rw [hfinds.longer path' (length_parent_lt hne), hnone]
    exact linked_addChild ih (hfinds.rooted.inside hfinds.found) hmissing

/-- A tree that has the paths, parents and names of another one. The children and
the members of its nodes are those of the other one, perhaps in another order. -/
structure Reordered (tree tree' : NamespaceTree) : Prop where
  byPath : tree'.byPath = tree.byPath
  size : tree'.nodes.size = tree.nodes.size
  names : ∀ id, tree'.nameOf id = tree.nameOf id
  parents : ∀ id, tree'.parentOf? id = tree.parentOf? id
  children : ∀ id, (tree'.childrenOf id).Perm (tree.childrenOf id)
  members : ∀ id, (tree'.membersOf id).Perm (tree.membersOf id)

theorem Reordered.linked {tree' : NamespaceTree} (h : Reordered tree tree')
    (hlinked : Linked tree) : Linked tree' where
  rooted :=
    { top := by rw [h.byPath]; exact hlinked.rooted.top
      inside := by
        intro path id hid
        rw [h.byPath] at hid
        rw [h.size]
        exact hlinked.rooted.inside hid }
  parentOf?_root := by rw [h.parents]; exact hlinked.parentOf?_root
  exists_parent := by
    intro id hid hne
    rw [h.size] at hid
    rw [h.parents]
    exact hlinked.exists_parent id hid hne
  parent_lt := by
    intro id parent hparent
    rw [h.parents] at hparent
    exact hlinked.parent_lt hparent
  mem_childrenOf := by
    intro id parent
    rw [(h.children parent).mem_iff, h.parents]
    exact hlinked.mem_childrenOf
  nodup_childrenOf id := (h.children id).nodup_iff.mpr (hlinked.nodup_childrenOf id)

theorem node?_sort (le : Nat → Nat → Bool) (id : Nat) :
    (tree.sort le).node? id = (tree.node? id).map fun node =>
      { node with
        children := node.children.mergeSort tree.childLe
        members := node.members.mergeSort le } := by
  unfold node? sort
  rw [Array.getElem?_map]

theorem childrenOf_sort (le : Nat → Nat → Bool) (id : Nat) :
    (tree.sort le).childrenOf id = (tree.childrenOf id).mergeSort tree.childLe := by
  unfold childrenOf
  rw [node?_sort]
  cases tree.node? id with
  | none => simp
  | some node => rfl

theorem reordered_sort (le : Nat → Nat → Bool) : Reordered tree (tree.sort le) where
  byPath := rfl
  size := by simp [sort]
  names := by
    intro id
    unfold nameOf
    rw [node?_sort]
    cases tree.node? id <;> rfl
  parents := by
    intro id
    unfold parentOf?
    rw [node?_sort]
    cases tree.node? id <;> rfl
  children id := childrenOf_sort le id ▸ List.mergeSort_perm _ _
  members id := membersOf_sort tree le id ▸ List.mergeSort_perm _ _

theorem node?_addMember (id member other : Nat) :
    (tree.addMember id member).node? other =
      if id = other then
        (tree.node? other).map fun node => { node with members := node.members ++ [member] }
      else tree.node? other := by
  unfold node? addMember
  simp only [Array.getElem?_modify]

theorem parentOf?_addMember (id member other : Nat) :
    (tree.addMember id member).parentOf? other = tree.parentOf? other := by
  unfold parentOf?
  rw [node?_addMember]
  split
  · cases tree.node? other <;> rfl
  · rfl

theorem childrenOf_addMember (id member other : Nat) :
    (tree.addMember id member).childrenOf other = tree.childrenOf other := by
  unfold childrenOf
  rw [node?_addMember]
  split
  · cases tree.node? other <;> rfl
  · rfl

theorem linked_addMember (h : Linked tree) (id member : Nat) :
    Linked (tree.addMember id member) where
  rooted := rooted_addMember h.rooted id member
  parentOf?_root := by rw [parentOf?_addMember]; exact h.parentOf?_root
  exists_parent := by
    intro other hother hne
    rw [parentOf?_addMember]
    exact h.exists_parent other (by simpa [addMember] using hother) hne
  parent_lt := by
    intro other parent hparent
    rw [parentOf?_addMember] at hparent
    exact h.parent_lt hparent
  mem_childrenOf := by
    intro other parent
    rw [childrenOf_addMember, parentOf?_addMember]
    exact h.mem_childrenOf
  nodup_childrenOf := by
    intro other
    rw [childrenOf_addMember]
    exact h.nodup_childrenOf other

end

/-! ## Histories -/

/-- One operation on a tree. -/
inductive Step : NamespaceTree → NamespaceTree → Prop
  | ask (tree : NamespaceTree) (path : String) : Step tree (tree.getOrAdd path).2
  | member (tree : NamespaceTree) (id member : Nat) : Step tree (tree.addMember id member)
  | sort (tree : NamespaceTree) (le : Nat → Nat → Bool) : Step tree (tree.sort le)

/-- The second tree comes from the first one by any number of operations. -/
abbrev Later : NamespaceTree → NamespaceTree → Prop := Relation.ReflTransGen Step

theorem Step.linked {tree tree' : NamespaceTree} (hstep : Step tree tree') (h : Linked tree) :
    Linked tree' := by
  cases hstep with
  | ask path => exact linked_getOrAddChars h path.toList
  | member id member => exact linked_addMember h id member
  | sort le => exact (reordered_sort le).linked h

/-- A path leads where it led before the operation. -/
theorem Step.byPath {tree tree' : NamespaceTree} (hstep : Step tree tree') (h : Linked tree)
    {path : String} {id : Nat} (hid : tree.byPath[path]? = some id) :
    tree'.byPath[path]? = some id := by
  cases hstep with
  | ask other => exact (getOrAdd_finds h.rooted other).grown.paths hid
  | member => exact hid
  | sort => exact hid

theorem Later.kept {tree later : NamespaceTree} (hlater : Later tree later) (h : Linked tree) :
    Linked later ∧
      ∀ {path : String} {id : Nat}, tree.byPath[path]? = some id →
        later.byPath[path]? = some id := by
  induction hlater with
  | refl => exact ⟨h, id⟩
  | tail _ hstep ih =>
    obtain ⟨hlinked, hpaths⟩ := ih
    exact ⟨hstep.linked hlinked, fun hid => hstep.byPath hlinked (hpaths hid)⟩

end BinaryAtlas.NamespaceTree
