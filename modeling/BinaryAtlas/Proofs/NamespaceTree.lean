-- The laws of the namespace tree. A path leads to one node for as long as the
-- tree grows, and new nodes come without members. So after any number of
-- globals have been added, the members of a node are the globals whose scopes
-- lead there.
import BinaryAtlas.Program.Load

namespace BinaryAtlas.NamespaceTree

/-! ## Paths and members -/

/-- The members of a node, and none where there is no node. -/
def membersOf (tree : NamespaceTree) (id : Nat) : List Nat :=
  ((tree.node? id).map Namespace.members).getD []

/-- The empty path leads to a node, and every path leads to a node that is there. -/
structure Rooted (tree : NamespaceTree) : Prop where
  top : tree.byPath[""]? = some root
  inside : ∀ {path : String} {id : Nat}, tree.byPath[path]? = some id → id < tree.nodes.size

/-- The second tree has the nodes of the first with their members, and its paths
lead where they led; new nodes have no members. -/
structure Grown (tree tree' : NamespaceTree) : Prop where
  paths : ∀ {path : String} {id : Nat}, tree.byPath[path]? = some id →
    tree'.byPath[path]? = some id
  members : ∀ id, tree'.membersOf id = tree.membersOf id

theorem grown_refl (tree : NamespaceTree) : Grown tree tree := ⟨id, fun _ => rfl⟩

theorem grown_trans {a b c : NamespaceTree} (hab : Grown a b) (hbc : Grown b c) : Grown a c :=
  ⟨fun h => hbc.paths (hab.paths h), fun id => (hbc.members id).trans (hab.members id)⟩

theorem rooted_empty : Rooted empty where
  top := by simp [empty]
  inside := by
    intro path id h
    simp only [empty, Std.ExtTreeMap.getElem?_insert, Std.ExtTreeMap.getElem?_empty] at h
    split at h
    · obtain rfl := Option.some.inj h
      exact Nat.zero_lt_one
    · cases h

theorem membersOf_empty (id : Nat) : empty.membersOf id = [] := by
  unfold membersOf node? empty
  cases id with
  | zero => rfl
  | succ id => rfl

/-! ## New nodes -/

section

variable {tree : NamespaceTree} {parent : Nat} {name path : String}

theorem rooted_addChild (h : Rooted tree) (hpath : tree.byPath[path]? = none) :
    Rooted (tree.addChild parent name path).2 where
  top := by
    have hne : path ≠ "" := by
      rintro rfl
      rw [h.top] at hpath
      cases hpath
    simp only [addChild, Std.ExtTreeMap.getElem?_insert, h.top]
    simp [hne]
  inside := by
    intro path' id hid
    simp only [addChild, Array.size_modify, Array.size_push]
    simp only [addChild, Std.ExtTreeMap.getElem?_insert] at hid
    split at hid
    · obtain rfl := Option.some.inj hid
      exact Nat.lt_succ_self _
    · exact Nat.lt_succ_of_lt (h.inside hid)

theorem membersOf_addChild (id : Nat) :
    (tree.addChild parent name path).2.membersOf id = tree.membersOf id := by
  unfold membersOf node? addChild
  simp only [Array.getElem?_modify, Array.getElem?_push]
  -- The parent gets a child, and the new node has no members.
  have hmap (node? : Option Namespace) :
      ((if parent = id then
          node?.map fun node => { node with children := node.children ++ [tree.nodes.size] }
        else node?).map Namespace.members).getD [] = (node?.map Namespace.members).getD [] := by
    split
    · cases node? <;> rfl
    · rfl
  rw [hmap]
  split
  · rename_i hid
    rw [hid, Array.getElem?_eq_none (Nat.le_refl _)]
    rfl
  · rfl

theorem grown_addChild (hpath : tree.byPath[path]? = none) :
    Grown tree (tree.addChild parent name path).2 where
  paths := by
    intro path' id hid
    simp only [addChild, Std.ExtTreeMap.getElem?_insert]
    have hne : path ≠ path' := by
      rintro rfl
      rw [hpath] at hid
      cases hid
    simpa [hne] using hid
  members := membersOf_addChild

end

/-- The node of a path has been found or made: the path leads to it, and the
paths that are longer lead where they led. -/
structure Finds (tree : NamespaceTree) (path : List Char) (result : Nat × NamespaceTree) :
    Prop where
  rooted : Rooted result.2
  grown : Grown tree result.2
  found : result.2.byPath[String.ofList (Text.dropSlash path)]? = some result.1
  longer : ∀ other : List Char, path.length < other.length →
    result.2.byPath[String.ofList other]? = tree.byPath[String.ofList other]?

theorem getOrAddChars_finds {tree : NamespaceTree} (h : Rooted tree) (path : List Char) :
    Finds tree path (tree.getOrAddChars path) := by
  fun_induction getOrAddChars tree path with
  | case1 path path' id hid => exact ⟨h, grown_refl tree, hid, fun _ _ => rfl⟩
  | case2 path path' hnone hnil =>
    -- The empty path is never missing.
    have htop := h.top
    rw [hnil, String.ofList_nil, htop] at hnone
    cases hnone
  | case3 path path' hnone hne parent grown heq ih =>
    rw [heq] at ih
    have hshort : (parentAndName path').1.length < path'.length := length_parent_lt hne
    have hpath : path'.length ≤ path.length := length_dropSlash_le path
    have hmissing : grown.byPath[String.ofList path']? = none := by
      rw [ih.longer path' hshort, hnone]
    refine ⟨rooted_addChild ih.rooted hmissing,
      grown_trans ih.grown (grown_addChild hmissing), ?_, ?_⟩
    · exact Std.ExtTreeMap.getElem?_insert_self
    · intro other hother
      have hne' : String.ofList path' ≠ String.ofList other := by
        intro he
        rw [String.ofList_injective he] at hpath
        omega
      rw [← ih.longer other (by omega)]
      simp [addChild, Std.ExtTreeMap.getElem?_insert, hne']

/-- The tree after one more path has been asked for. -/
theorem getOrAdd_finds {tree : NamespaceTree} (h : Rooted tree) (path : String) :
    Finds tree path.toList (tree.getOrAdd path) := getOrAddChars_finds h path.toList

/-- Asking for a path that leads to a node gives that node, and the tree as it is. -/
theorem getOrAdd_of_get? {tree : NamespaceTree} {path : String} {id : Nat}
    (h : tree.get? path = some id) : tree.getOrAdd path = (id, tree) := by
  unfold get? at h
  unfold getOrAdd
  rw [getOrAddChars, h]

/-! ## New members -/

theorem membersOf_addMember {tree : NamespaceTree} {id : Nat} (hid : id < tree.nodes.size)
    (member other : Nat) :
    (tree.addMember id member).membersOf other =
      tree.membersOf other ++ if id = other then [member] else [] := by
  unfold membersOf node? addMember
  simp only [Array.getElem?_modify]
  split
  · rename_i he
    subst he
    rw [Array.getElem?_eq_getElem hid]
    rfl
  · simp

theorem rooted_addMember {tree : NamespaceTree} (h : Rooted tree) (id member : Nat) :
    Rooted (tree.addMember id member) where
  top := h.top
  inside := by
    intro path other hpath
    simpa [addMember] using h.inside hpath

theorem membersOf_sort (tree : NamespaceTree) (le : Nat → Nat → Bool) (id : Nat) :
    (tree.sort le).membersOf id = (tree.membersOf id).mergeSort le := by
  unfold membersOf node? sort
  simp only [Array.getElem?_map]
  cases tree.nodes[id]? with
  | none => simp
  | some node => rfl

/-! ## Many globals -/

/-- The places whose keys lie in the scope of a node. -/
def placesIn (tree : NamespaceTree) (entries : List (TypeKey × Nat)) (id : Nat) : List Nat :=
  (entries.filter fun entry => tree.get? entry.1.scope = some id).map Prod.snd

theorem addGlobal_adds {tree : NamespaceTree} (h : Rooted tree) (entry : TypeKey × Nat) :
    Rooted (tree.addGlobal entry) ∧
      (∀ path id, tree.get? path = some id → (tree.addGlobal entry).get? path = some id) ∧
      ∃ id, (tree.addGlobal entry).get? entry.1.scope = some id ∧
        ∀ other, (tree.addGlobal entry).membersOf other =
          tree.membersOf other ++ if id = other then [entry.2] else [] := by
  have hfinds := getOrAdd_finds h entry.1.scope
  refine ⟨rooted_addMember hfinds.rooted _ _, fun path id hid => hfinds.grown.paths hid, _,
    hfinds.found, fun other => ?_⟩
  rw [addGlobal, membersOf_addMember (hfinds.rooted.inside hfinds.found), hfinds.grown.members]

/-- After a run of globals each of their scopes leads to a node, and each node
has the globals whose scopes lead there, behind the members that it had. -/
theorem foldl_addGlobal_adds {tree : NamespaceTree} (h : Rooted tree)
    (entries : List (TypeKey × Nat)) :
    (∀ path id, tree.get? path = some id → (entries.foldl addGlobal tree).get? path = some id) ∧
      (∀ entry ∈ entries, ∃ id, (entries.foldl addGlobal tree).get? entry.1.scope = some id) ∧
      ∀ id, (entries.foldl addGlobal tree).membersOf id =
        tree.membersOf id ++ placesIn (entries.foldl addGlobal tree) entries id := by
  induction entries generalizing tree with
  | nil => exact ⟨fun _ _ hid => hid, nofun, fun id => by simp [placesIn]⟩
  | cons entry entries ih =>
    obtain ⟨hrooted, hpaths, own, hown, hmembers⟩ := addGlobal_adds h entry
    obtain ⟨hpaths', hfound', hmembers'⟩ := ih hrooted
    have hlasting := hpaths' _ _ hown
    rw [List.foldl_cons]
    refine ⟨fun path id hid => hpaths' path id (hpaths path id hid), ?_, ?_⟩
    · intro other hother
      rcases List.mem_cons.mp hother with rfl | hother
      · exact ⟨own, hlasting⟩
      · exact hfound' other hother
    · intro id
      rw [hmembers', hmembers, List.append_assoc, List.append_right_inj]
      unfold placesIn
      rw [List.filter_cons, hlasting]
      by_cases he : own = id
      · simp [he]
      · simp [he]

end BinaryAtlas.NamespaceTree
