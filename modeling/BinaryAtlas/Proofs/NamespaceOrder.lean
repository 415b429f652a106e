-- The laws of the order of the namespace tree. No two children of a node share
-- a name, so sorting puts them in one strict order; and then the walk goes
-- through the paths in the order of their names, name by name, and not in the
-- order of the paths as texts.
import BinaryAtlas.Proofs.NamespacePaths
import BinaryAtlas.Proofs.NamespaceWalk
import BinaryAtlas.Proofs.TextOrder

namespace BinaryAtlas.NamespaceTree

open Text

/-! ## Siblings -/

section

variable {tree : NamespaceTree}

theorem childLe_iff (a b : Nat) : tree.childLe a b = true ↔
    tree.nameOf a < tree.nameOf b ∨ tree.nameOf a = tree.nameOf b ∧ a ≤ b := by
  have hlt {s t : String} (hord : compare s t = .lt) : s < t := compareOfLessAndEq_eq_lt.mp hord
  unfold childLe
  cases hord : compare (tree.nameOf a) (tree.nameOf b) with
  | lt => simp [hlt hord]
  | eq => simp [Std.compare_eq_iff_eq.mp hord]
  | gt =>
    have hgt := hlt (Std.OrientedCmp.gt_iff_lt.mp hord)
    simp [String.lt_asymm hgt, (String.ne_of_lt hgt).symm]

theorem pairwise_childrenOf_sort (le : Nat → Nat → Bool) (id : Nat) :
    ((tree.sort le).childrenOf id).Pairwise fun a b => tree.childLe a b = true := by
  rw [childrenOf_sort]
  apply List.pairwise_mergeSort
  · intro a b c hab hbc
    rw [childLe_iff] at hab hbc ⊢
    rcases hab with hab | ⟨hab, hle⟩
    · rcases hbc with hbc | ⟨hbc, -⟩
      · exact .inl (String.lt_trans hab hbc)
      · exact .inl (hbc ▸ hab)
    · rw [hab]
      rcases hbc with hbc | ⟨hbc, hle'⟩
      · exact .inl hbc
      · exact .inr ⟨hbc, Nat.le_trans hle hle'⟩
  · intro a b
    rw [Bool.or_eq_true, childLe_iff, childLe_iff]
    rcases Std.lt_trichotomy (tree.nameOf a) (tree.nameOf b) with hlt | heq | hlt
    · exact .inl (.inl hlt)
    · rcases Nat.le_total a b with hle | hle
      · exact .inl (.inr ⟨heq, hle⟩)
      · exact .inr (.inr ⟨heq.symm, hle⟩)
    · exact .inr (.inl hlt)

theorem Spelled.eq_of_nameOf (h : Spelled tree) {parent a b : Nat}
    (ha : tree.parentOf? a = some parent) (hb : tree.parentOf? b = some parent)
    (hname : tree.nameOf a = tree.nameOf b) : a = b := by
  apply h.eq_of_pathOf (lt_of_parentOf? ha) (lt_of_parentOf? hb)
  rw [pathOf, pathOf, namesTo_of_some ha (h.linked.parent_lt ha),
    namesTo_of_some hb (h.linked.parent_lt hb), hname]

theorem Spelled.sort (h : Spelled tree) (le : Nat → Nat → Bool) : Spelled (tree.sort le) := by
  have hre : Reordered tree (tree.sort le) := reordered_sort le
  have hnames : ∀ id < tree.nodes.size, (tree.sort le).namesTo id = tree.namesTo id :=
    namesTo_congr h.linked (fun id _ => hre.parents id) fun id _ => hre.names id
  have hpath : ∀ id < tree.nodes.size, (tree.sort le).pathOf id = tree.pathOf id := fun id hid =>
    congrArg _ (hnames id hid)
  constructor
  case linked => exact hre.linked h.linked
  case names =>
    intro id hid
    rw [hre.size] at hid
    rw [hnames id hid, hpath id hid, h.names id hid]
  case plain =>
    intro id hid
    rw [hre.size] at hid
    rw [hpath id hid]
    exact h.plain id hid
  case leads =>
    intro path id
    rw [hre.byPath, hre.size, h.leads, and_congr_right_iff]
    intro hid
    rw [hpath id hid]

/-- The children of every node stand in the strict order of their names. -/
def Ascending (tree : NamespaceTree) : Prop :=
  ∀ id, (tree.childrenOf id).Pairwise fun a b => tree.nameOf a < tree.nameOf b

theorem ascending_sort (h : Spelled tree) (le : Nat → Nat → Bool) : Ascending (tree.sort le) := by
  intro id
  have hsorted := h.sort le
  have hle : ((tree.sort le).childrenOf id).Pairwise fun a b => tree.childLe a b = true :=
    pairwise_childrenOf_sort le id
  refine (hle.and (hsorted.linked.nodup_childrenOf id)).imp_of_mem ?_
  rintro a b ha hb ⟨hab, hne⟩
  rw [(reordered_sort le).names, (reordered_sort le).names]
  have hname : tree.nameOf a ≠ tree.nameOf b := by
    intro hname
    rw [← (reordered_sort le).names a, ← (reordered_sort le).names b] at hname
    exact hne (hsorted.eq_of_nameOf (hsorted.linked.mem_childrenOf.mp ha)
      (hsorted.linked.mem_childrenOf.mp hb) hname)
  exact ((childLe_iff a b).mp hab).resolve_right fun heq => hname heq.1

/-! ## The order of the walk -/

/-- What stands below a child goes on after the name of the child. -/
theorem Linked.namesTo_below (h : Linked tree) {top child steps id : Nat}
    (hchild : child ∈ tree.childrenOf top) (habove : tree.above? steps id = some child) :
    ∃ more, tree.namesTo id = tree.namesTo top ++ tree.nameOf child :: more := by
  induction steps generalizing id with
  | zero =>
    obtain rfl := Option.some.inj habove
    exact ⟨[], namesTo_of_some (h.mem_childrenOf.mp hchild) (h.lt_of_mem hchild).1⟩
  | succ steps ih =>
    obtain ⟨parent, hparent, habove⟩ := Option.bind_eq_some_iff.mp habove
    obtain ⟨more, hmore⟩ := ih habove
    refine ⟨more ++ [tree.nameOf id], ?_⟩
    rw [namesTo_of_some hparent (h.parent_lt hparent), hmore, List.append_assoc, List.cons_append]

/-- The names down to the nodes of a walk ascend, name by name. -/
theorem Linked.pairwise_walkFrom (h : Linked tree) (hascending : Ascending tree) {top : Nat}
    (htop : top < tree.nodes.size) (depth : Nat) :
    (tree.walkFrom depth top).Pairwise fun a b => tree.namesTo a.2 < tree.namesTo b.2 := by
  induction top, htop using h.children_induction generalizing depth with
  | node top htop ih =>
    have hbelow {child : Nat} (hchild : child ∈ tree.childrenOf top) {place : Nat × Nat}
        (hplace : place ∈ tree.walkFrom (depth + 1) child) :
        ∃ more, tree.namesTo place.2 = tree.namesTo top ++ tree.nameOf child :: more := by
      obtain ⟨steps, -, habove⟩ := (h.mem_walkFrom (h.lt_of_mem hchild).2).mp hplace
      exact h.namesTo_below hchild habove
    rw [h.walkFrom_eq htop, List.pairwise_cons, List.pairwise_flatMap]
    refine ⟨?_, fun child hchild => ih child hchild (depth + 1), ?_⟩
    · intro place hplace
      obtain ⟨child, hchild, hplace⟩ := List.mem_flatMap.mp hplace
      obtain ⟨more, hmore⟩ := hbelow hchild hplace
      rw [hmore]
      nth_rewrite 1 [← List.append_nil (tree.namesTo top)]
      exact List.append_left_lt (List.nil_lt_cons _ _)
    · refine (hascending top).imp_of_mem ?_
      intro a b ha hb hab x hx y hy
      obtain ⟨more, hmore⟩ := hbelow ha hx
      obtain ⟨more', hmore'⟩ := hbelow hb hy
      rw [hmore, hmore']
      exact List.append_left_lt (List.cons_lt_cons_iff.mpr (.inl hab))

end

/-! ## All histories -/

/-- A path without its leading slash. -/
def bare (path : String) : List Char := dropSlash path.toList

/-- The path does not start with two slashes. -/
def IsPlain (path : String) : Prop := ¬ ['/', '/'] <+: path.toList

theorem IsPlain.head?_bare {path : String} (h : IsPlain path) : (bare path).head? ≠ some '/' := by
  intro hhead
  obtain ⟨rest, hrest⟩ := head?_dropSlash_iff.mp hhead
  exact h ⟨rest, hrest.symm⟩

/-- Trees that come from the empty one by asking for paths and by sorting, with the
paths that were asked for. None of these starts with two slashes. -/
inductive Asked : List String → NamespaceTree → Prop
  | start : Asked [] empty
  | ask {paths : List String} {tree : NamespaceTree} {path : String} :
      Asked paths tree → IsPlain path → Asked (path :: paths) (tree.getOrAdd path).2
  | sort {paths : List String} {tree : NamespaceTree} (le : Nat → Nat → Bool) :
      Asked paths tree → Asked paths (tree.sort le)

theorem Asked.spelled {paths : List String} {tree : NamespaceTree} (h : Asked paths tree) :
    Spelled tree := by
  induction h with
  | start => exact spelled_empty
  | ask _ hplain ih => exact spelled_getOrAddChars ih _ hplain.head?_bare
  | sort le _ ih => exact ih.sort le

/-- The paths that lead somewhere are those on the ways to what was asked for. -/
theorem Asked.isSome_byPath {paths : List String} {tree : NamespaceTree} (h : Asked paths tree)
    (other : List Char) : tree.byPath[String.ofList other]?.isSome ↔
      other = [] ∨ ∃ asked ∈ paths, components other <+: components (bare asked) := by
  induction h with
  | start =>
    by_cases hother : other = []
    · simp [hother, empty]
    · have hne : "" ≠ String.ofList other := by
        rw [← String.ofList_nil]
        exact fun he => hother (String.ofList_injective he).symm
      simp [hother, hne, empty]
  | @ask paths tree path hasked hplain ih =>
    have hstep := isSome_byPath_getOrAddChars hasked.spelled path.toList hplain.head?_bare other
    simp only [List.mem_cons, or_and_right, exists_or, exists_eq_left]
    rw [getOrAdd, hstep, ih, or_assoc]
    exact or_congr_right or_comm
  | sort le _ ih => exact ih

/-- In a tree that was made of paths with one leading slash at most, in any order
and with any sorting between: what a path is given has this path, and every node is found by its
path; a path leads somewhere if it is empty or if its names are the first names
of a path that was asked for; no two children of a node share a name; and after
sorting, the walk goes through the paths in the strict order of their names, which
compare by their bytes. -/
theorem asked_paths_make_an_ordered_tree {paths : List String} {tree : NamespaceTree}
    (h : Asked paths tree) :
    (∀ path, IsPlain path →
      ((tree.getOrAdd path).2.pathOf (tree.getOrAdd path).1).toList = bare path) ∧
    (∀ id < tree.size, tree.get? (tree.pathOf id) = some id) ∧
    (∀ path, (tree.get? path).isSome ↔
      bare path = [] ∨ ∃ asked ∈ paths, components (bare path) <+: components (bare asked)) ∧
    (∀ parent a b, tree.parentOf? a = some parent → tree.parentOf? b = some parent →
      tree.nameOf a = tree.nameOf b → a = b) ∧
    ∀ le, ((tree.sort le).walk.map fun place =>
      (components ((tree.sort le).pathOf place.2).toList).map bytesOf).Pairwise (· < ·) := by
  have hspelled := h.spelled
  refine ⟨?_, ?_, fun path => h.isSome_byPath (bare path),
    fun _ _ _ => hspelled.eq_of_nameOf, ?_⟩
  · intro path hplain
    have hfinds := getOrAdd_finds hspelled.linked.rooted path
    have hasked : Spelled (tree.getOrAdd path).2 :=
      spelled_getOrAddChars hspelled _ hplain.head?_bare
    rw [(hasked.leads.mp hfinds.found).2, String.toList_ofList]
    rfl
  · intro id hid
    rw [get?, dropSlash_of_head? (hspelled.plain id hid), String.ofList_toList]
    exact hspelled.leads.mpr ⟨hid, rfl⟩
  · intro le
    have hsorted := hspelled.sort le
    have hroot := hsorted.linked.rooted.root_lt
    have hnames := hsorted.linked.pairwise_walkFrom (ascending_sort hspelled le) hroot 0
    refine List.pairwise_map.mpr (hnames.imp_of_mem ?_)
    intro a b ha hb hab
    have hin {place : Nat × Nat} (hplace : place ∈ (tree.sort le).walkFrom 0 root) :
        place.2 < (tree.sort le).nodes.size := by
      obtain ⟨steps, -, habove⟩ := (hsorted.linked.mem_walkFrom hroot).mp hplace
      exact lt_of_above? habove hroot
    rw [hsorted.names _ (hin ha), hsorted.names _ (hin hb)] at hab
    exact List.map_lt (fun _ _ => bytesOf_lt_bytesOf) hab

/-- A tree with an empty name at the end of a path and one in the middle, sorted
before its last path came. -/
def orderedTree : NamespaceTree :=
  let tree := (empty.getOrAdd "/b//y").2
  let tree := (tree.getOrAdd "b-/x").2
  let tree := tree.sort fun a b => a ≤ b
  (tree.getOrAdd "a/").2

/-- The name of the path "b" stands before "b-", so the three paths that start with "b/"
or are "b" come before "b-" in the walk, although a minus stands before a slash. -/
theorem a_tree_of_three_paths_is_ordered : Asked ["a/", "b-/x", "/b//y"] orderedTree ∧
    ((orderedTree.getOrAdd "b/c").2.pathOf (orderedTree.getOrAdd "b/c").1).toList = bare "b/c" ∧
    orderedTree.get? (orderedTree.pathOf 3) = some 3 ∧
    (orderedTree.get? "/b/").isSome ∧ ¬ (orderedTree.get? "/y").isSome ∧
    (orderedTree.sort fun a b => a ≤ b).walk.map Prod.snd = [0, 6, 7, 1, 2, 3, 4, 5] ∧
    ((orderedTree.sort fun a b => a ≤ b).walk.map fun place =>
      (components ((orderedTree.sort fun a b => a ≤ b).pathOf place.2).toList).map
        bytesOf).Pairwise (· < ·) := by
  have hplain : ∀ path ∈ ["a/", "b-/x", "/b//y", "b/c"], IsPlain path := by
    unfold IsPlain
    decide
  have hasked : Asked ["a/", "b-/x", "/b//y"] orderedTree := by
    refine .ask (.sort _ (.ask (.ask .start ?_) ?_)) ?_ <;> exact hplain _ (by decide)
  have hwalk : (orderedTree.sort fun a b => a ≤ b).walk =
      [(0, 0), (1, 6), (2, 7), (1, 1), (2, 2), (3, 3), (1, 4), (2, 5)] := by cbv
  obtain ⟨hpath, hfound, hknown, -, horder⟩ := asked_paths_make_an_ordered_tree hasked
  refine ⟨hasked, hpath "b/c" (hplain _ (by decide)), hfound 3 (by decide +kernel), ?_, ?_,
    congrArg (List.map Prod.snd) hwalk, horder _⟩
  · refine (hknown "/b/").mpr (.inr ⟨"/b//y", by decide, ?_⟩)
    decide +kernel
  · rw [hknown "/y"]
    decide +kernel

end BinaryAtlas.NamespaceTree
