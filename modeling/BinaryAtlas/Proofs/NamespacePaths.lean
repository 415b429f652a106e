-- The laws of the paths of the namespace tree. A node is known by its path, by
-- its place among the children of its parent, and by its name there. As long
-- as no path is asked for that starts with two slashes, the three agree: a
-- node stands at the end of the names that its path goes through.
import BinaryAtlas.Proofs.NamespaceLinks
import BinaryAtlas.Proofs.Paths

namespace BinaryAtlas.NamespaceTree

open Text

/-! ## The names of a path -/

/-- The names between the slashes of a path. The empty path goes through none. -/
def components (path : List Char) : List String :=
  if path = [] then [] else (path.splitOn '/').map String.ofList

theorem intercalate_components (path : List Char) :
    "/".intercalate (components path) = .ofList path := by
  unfold components
  split
  · rename_i hnil
    rw [hnil, String.intercalate_nil, String.ofList_nil]
  · apply String.toList_injective
    rw [String.toList_intercalate, List.map_map, String.toList_ofList]
    simp [Function.comp_def]

theorem components_injective {a b : List Char} (h : components a = components b) : a = b := by
  apply String.ofList_injective
  rw [← intercalate_components, ← intercalate_components, h]

/-- A path goes through the names of its parent, and then through its own. -/
theorem components_parent {path : List Char} (hne : path ≠ []) (hplain : path.head? ≠ some '/') :
    components path =
      components (parentAndName path).1 ++ [.ofList (parentAndName path).2] := by
  unfold parentAndName
  cases hcut : splitLast '/' path with
  | none =>
    rw [Option.getD_none, components, if_neg hne,
      List.splitOn_eq_singleton (splitLast_eq_none_iff.mp hcut)]
    rfl
  | some parts =>
    obtain ⟨above, name⟩ := parts
    have hpath := splitLast_eq_some hcut
    have habove : above ≠ [] := by
      rintro rfl
      exact hplain (hpath ▸ rfl)
    rw [Option.getD_some, components, if_neg hne, components, if_neg habove, hpath,
      List.splitOn_append_cons_self, List.splitOn_eq_singleton (not_mem_of_splitLast hcut),
      List.map_append]
    rfl

theorem parent_prefix (path : List Char) : (parentAndName path).1 <+: path := by
  unfold parentAndName
  cases hcut : splitLast '/' path with
  | none => exact List.nil_prefix
  | some parts => exact ⟨_, (splitLast_eq_some hcut).symm⟩

/-- The parent of a path starts with no slash if the path starts with none. -/
theorem head?_parent {path : List Char} (hplain : path.head? ≠ some '/') :
    (parentAndName path).1.head? ≠ some '/' := by
  intro hhead
  obtain ⟨rest, hrest⟩ := List.head?_eq_some_iff.mp hhead
  obtain ⟨more, hmore⟩ := parent_prefix path
  rw [hrest] at hmore
  exact hplain (hmore ▸ rfl)

/-! ## The names down to a node -/

section

variable {tree : NamespaceTree}

theorem namesTo_of_none {id : Nat} (h : tree.parentOf? id = none) : tree.namesTo id = [] := by
  rw [namesTo]
  unfold parentOf? at h
  cases hnode : tree.node? id with
  | none => rfl
  | some node =>
    rw [hnode, Option.bind_some] at h
    simp [h]

theorem namesTo_of_some {id parent : Nat} (h : tree.parentOf? id = some parent)
    (hlt : parent < id) : tree.namesTo id = tree.namesTo parent ++ [tree.nameOf id] := by
  rw [namesTo]
  unfold parentOf? at h
  unfold nameOf
  cases hnode : tree.node? id with
  | none =>
    rw [hnode] at h
    cases h
  | some node =>
    rw [hnode, Option.bind_some] at h
    simp [h, hlt]

/-- The names down to the first nodes are the same in trees where these have the same
names and parents. -/
theorem namesTo_congr {tree' : NamespaceTree} (h : Linked tree) {bound : Nat}
    (hparents : ∀ id < bound, tree'.parentOf? id = tree.parentOf? id)
    (hnames : ∀ id < bound, tree'.nameOf id = tree.nameOf id) :
    ∀ id < bound, tree'.namesTo id = tree.namesTo id := by
  intro id
  induction id using Nat.strongRecOn with
  | ind id ih =>
    intro hid
    cases hparent : tree.parentOf? id with
    | none =>
      rw [namesTo_of_none hparent, namesTo_of_none ((hparents id hid).trans hparent)]
    | some parent =>
      have hlt := h.parent_lt hparent
      rw [namesTo_of_some hparent hlt, namesTo_of_some ((hparents id hid).trans hparent) hlt,
        ih parent hlt (by omega), hnames id hid]

end

/-! ## Paths, parents and names agree -/

/-- The paths lead to the nodes at the ends of the names that they go through. -/
structure Spelled (tree : NamespaceTree) : Prop where
  linked : Linked tree
  names : ∀ id < tree.nodes.size, tree.namesTo id = components (tree.pathOf id).toList
  plain : ∀ id < tree.nodes.size, (tree.pathOf id).toList.head? ≠ some '/'
  leads : ∀ {path : String} {id : Nat}, tree.byPath[path]? = some id ↔
    id < tree.nodes.size ∧ tree.pathOf id = path

theorem pathOf_root {tree : NamespaceTree} (h : Linked tree) : tree.pathOf root = "" := by
  rw [pathOf, namesTo_of_none h.parentOf?_root, String.intercalate_nil]

theorem spelled_empty : Spelled empty where
  linked := linked_empty
  names := by
    intro id hid
    obtain rfl := eq_root_of_lt hid
    rw [pathOf_root linked_empty, namesTo_of_none linked_empty.parentOf?_root]
    rfl
  plain := by
    intro id hid
    obtain rfl := eq_root_of_lt hid
    rw [pathOf_root linked_empty]
    exact nofun
  leads := by
    intro path id
    simp only [empty, Std.ExtTreeMap.getElem?_insert, Std.ExtTreeMap.getElem?_empty,
      Std.compare_eq_iff_eq]
    constructor
    · intro h
      split at h
      · rename_i hpath
        obtain rfl := Option.some.inj h
        exact ⟨Nat.zero_lt_one, (pathOf_root linked_empty).trans hpath⟩
      · cases h
    · rintro ⟨hid, hpath⟩
      obtain rfl := eq_root_of_lt hid
      exact if_pos ((pathOf_root linked_empty).symm.trans hpath)

/-- Nodes that have the same path are the same node. -/
theorem Spelled.eq_of_pathOf {tree : NamespaceTree} (h : Spelled tree) {a b : Nat}
    (ha : a < tree.nodes.size) (hb : b < tree.nodes.size) (hpath : tree.pathOf a = tree.pathOf b) :
    a = b := by
  have hleads := h.leads.mpr ⟨ha, hpath⟩
  exact Option.some.inj (hleads.symm.trans (h.leads.mpr ⟨hb, rfl⟩))

theorem spelled_addChild {tree : NamespaceTree} (h : Spelled tree) {path : List Char} {parent : Nat}
    (hne : path ≠ []) (hplain : path.head? ≠ some '/')
    (hparent : tree.byPath[String.ofList (parentAndName path).1]? = some parent)
    (hmissing : tree.byPath[String.ofList path]? = none) :
    Spelled (tree.addChild parent (.ofList (parentAndName path).2) (.ofList path)).2 := by
  obtain ⟨hlt, habove⟩ := h.leads.mp hparent
  generalize hgrown :
    (tree.addChild parent (.ofList (parentAndName path).2) (.ofList path)).2 = grown
  have hsize : grown.nodes.size = tree.nodes.size + 1 := hgrown ▸ size_addChild
  have hparentOf (id : Nat) : grown.parentOf? id =
      if id = tree.nodes.size then some parent else tree.parentOf? id :=
    hgrown ▸ parentOf?_addChild hlt id
  have hnameOf (id : Nat) : grown.nameOf id =
      if id = tree.nodes.size then .ofList (parentAndName path).2 else tree.nameOf id :=
    hgrown ▸ nameOf_addChild hlt id
  have hbyPath : grown.byPath = tree.byPath.insert (.ofList path) tree.nodes.size := hgrown ▸ rfl
  have holdNames : ∀ id < tree.nodes.size, grown.namesTo id = tree.namesTo id :=
    namesTo_congr h.linked (fun id hid => (hparentOf id).trans (if_neg (Nat.ne_of_lt hid)))
      fun id hid => (hnameOf id).trans (if_neg (Nat.ne_of_lt hid))
  have holdPath : ∀ id < tree.nodes.size, grown.pathOf id = tree.pathOf id := fun id hid =>
    congrArg _ (holdNames id hid)
  have hnewNames : grown.namesTo tree.nodes.size = components path := by
    rw [namesTo_of_some ((hparentOf _).trans (if_pos rfl)) hlt, hnameOf, if_pos rfl,
      holdNames parent hlt, h.names parent hlt, habove, String.toList_ofList]
    exact (components_parent hne hplain).symm
  have hnewPath : grown.pathOf tree.nodes.size = .ofList path := by
    rw [pathOf, hnewNames, intercalate_components]
  have hcases {id : Nat} (hid : id < grown.nodes.size) :
      id < tree.nodes.size ∨ id = tree.nodes.size := by omega
  constructor
  case linked => exact hgrown ▸ linked_addChild h.linked hlt hmissing
  case names =>
    intro id hid
    rcases hcases hid with hid | rfl
    · rw [holdNames id hid, holdPath id hid, h.names id hid]
    · rw [hnewNames, hnewPath, String.toList_ofList]
  case plain =>
    intro id hid
    rcases hcases hid with hid | rfl
    · rw [holdPath id hid]
      exact h.plain id hid
    · rw [hnewPath, String.toList_ofList]
      exact hplain
  case leads =>
    intro other id
    simp only [hbyPath, Std.ExtTreeMap.getElem?_insert, Std.compare_eq_iff_eq]
    constructor
    · intro hid
      split at hid
      · rename_i hother
        obtain rfl := Option.some.inj hid
        exact ⟨by omega, hnewPath.trans hother⟩
      · obtain ⟨hid, hother⟩ := h.leads.mp hid
        exact ⟨by omega, (holdPath id hid).trans hother⟩
    · rintro ⟨hid, hother⟩
      rcases hcases hid with hid | rfl
      · rw [holdPath id hid] at hother
        have hold := h.leads.mpr ⟨hid, hother⟩
        rw [if_neg, hold]
        rintro rfl
        rw [hmissing] at hold
        cases hold
      · exact if_pos (hnewPath.symm.trans hother)

theorem spelled_getOrAddChars {tree : NamespaceTree} (h : Spelled tree) (path : List Char)
    (hplain : (dropSlash path).head? ≠ some '/') : Spelled (tree.getOrAddChars path).2 := by
  fun_induction getOrAddChars tree path with
  | case1 => exact h
  | case2 => exact h
  | case3 path path' hnone hne parent grown heq ih =>
    have hplain' := head?_parent hplain
    have hfinds := getOrAddChars_finds h.linked.rooted (parentAndName path').1
    rw [heq] at ih hfinds
    have hfound := hfinds.found
    rw [dropSlash_of_head? hplain'] at hfound
    refine spelled_addChild (ih ?_) hne hplain hfound ?_
    · rw [dropSlash_of_head? hplain']
      exact hplain'
    · rw [hfinds.longer path' (length_parent_lt hne), hnone]

/-! ## The paths that lead somewhere -/

/-- The names on the way to a node lead to the nodes above it. -/
theorem Spelled.exists_of_prefix {tree : NamespaceTree} (h : Spelled tree) {names : List String}
    {id : Nat} (hid : id < tree.nodes.size) (hstart : names <+: tree.namesTo id) :
    ∃ above < tree.nodes.size, tree.namesTo above = names := by
  induction id using Nat.strongRecOn with
  | ind id ih =>
    cases hparent : tree.parentOf? id with
    | none =>
      rw [namesTo_of_none hparent, List.prefix_nil] at hstart
      exact ⟨id, hid, (namesTo_of_none hparent).trans hstart.symm⟩
    | some parent =>
      have hlt := h.linked.parent_lt hparent
      rw [namesTo_of_some hparent hlt, List.prefix_concat_iff] at hstart
      rcases hstart with rfl | hstart
      · exact ⟨id, hid, namesTo_of_some hparent hlt⟩
      · exact ih parent hlt (by omega) hstart

/-- Asking for a path makes the paths to its node lead somewhere, and no other. -/
theorem isSome_byPath_getOrAddChars {tree : NamespaceTree} (h : Spelled tree) (path : List Char)
    (hplain : (dropSlash path).head? ≠ some '/') (other : List Char) :
    (tree.getOrAddChars path).2.byPath[String.ofList other]?.isSome ↔
      tree.byPath[String.ofList other]?.isSome ∨
        components other <+: components (dropSlash path) := by
  fun_induction getOrAddChars tree path with
  | case1 path path' id hid =>
    rw [or_iff_left_of_imp]
    intro hstart
    obtain ⟨hlt, hpath⟩ := h.leads.mp hid
    have hnames := h.names id hlt
    rw [hpath, String.toList_ofList] at hnames
    obtain ⟨above, habove, hnames⟩ := h.exists_of_prefix hlt (hnames ▸ hstart)
    have hother : tree.pathOf above = .ofList other := by
      rw [pathOf, hnames, intercalate_components]
    exact Option.isSome_of_mem (h.leads.mpr ⟨habove, hother⟩)
  | case2 path path' hnone hnil =>
    have htop := h.linked.rooted.top
    rw [hnil, String.ofList_nil, htop] at hnone
    cases hnone
  | case3 path path' hnone hne parent grown heq ih =>
    have hplain' := head?_parent hplain
    rw [heq, dropSlash_of_head? hplain'] at ih
    have hkey : ((grown.addChild parent (.ofList (parentAndName path').2)
        (.ofList path')).2.byPath[String.ofList other]?).isSome ↔
          path' = other ∨ grown.byPath[String.ofList other]?.isSome := by
      simp only [addChild, Std.ExtTreeMap.getElem?_insert, Std.compare_eq_iff_eq]
      by_cases hother : path' = other
      · simp [hother]
      · have hne' : String.ofList path' ≠ String.ofList other := fun he =>
          hother (String.ofList_injective he)
        simp [hother, hne']
    have hcomponents : components path' = components other ↔ path' = other :=
      ⟨components_injective, congrArg _⟩
    rw [hkey, ih hplain', components_parent hne hplain, List.prefix_concat_iff,
      ← components_parent hne hplain, eq_comm (a := components other), hcomponents, or_left_comm]

end BinaryAtlas.NamespaceTree
