-- The laws of the walk through the namespace tree. The walk comes to every
-- node once, to a node before the nodes below it, and to all of these before
-- any other node. So the depth that it tells is the number of steps from the
-- node up to the root, and a stack of the places to come does the same work.
import BinaryAtlas.Proofs.NamespaceLinks
import Mathlib.Data.List.Permutation
import Mathlib.Logic.Function.Iterate

namespace BinaryAtlas.NamespaceTree

/-! ## The way up -/

/-- The node that stands so many steps above a node. -/
def above? (tree : NamespaceTree) : Nat → Nat → Option Nat
  | 0, id => some id
  | steps + 1, id => (tree.parentOf? id).bind (above? tree steps)

theorem above?_add (tree : NamespaceTree) (m n id : Nat) :
    tree.above? (m + n) id = (tree.above? m id).bind (tree.above? n) := by
  induction m generalizing id with
  | zero => rw [Nat.zero_add]; rfl
  | succ m ih =>
    rw [Nat.succ_add, above?, above?, Option.bind_assoc]
    exact congrArg _ (funext ih)

theorem above?_one (tree : NamespaceTree) (id : Nat) : tree.above? 1 id = tree.parentOf? id := by
  rw [above?]
  cases tree.parentOf? id <;> rfl

theorem lt_of_above? {tree : NamespaceTree} {steps id top : Nat}
    (habove : tree.above? steps id = some top) (htop : top < tree.nodes.size) :
    id < tree.nodes.size := by
  cases steps with
  | zero => exact Option.some.inj habove ▸ htop
  | succ steps =>
    obtain ⟨parent, hparent, -⟩ := Option.bind_eq_some_iff.mp habove
    exact lt_of_parentOf? hparent

namespace Linked

variable {tree : NamespaceTree} (h : Linked tree)
include h

theorem above?_le {steps id top : Nat} (habove : tree.above? steps id = some top) :
    top + steps ≤ id := by
  induction steps generalizing id with
  | zero =>
    obtain rfl := Option.some.inj habove
    exact Nat.le_refl _
  | succ steps ih =>
    obtain ⟨parent, hparent, habove⟩ := Option.bind_eq_some_iff.mp habove
    have hlt := h.parent_lt hparent
    have hle := ih habove
    omega

/-- What stands more than no step below a node stands below one of its children,
or is one. -/
theorem above?_succ {steps id top : Nat} : tree.above? (steps + 1) id = some top ↔
    ∃ child ∈ tree.childrenOf top, tree.above? steps id = some child := by
  rw [above?_add, Option.bind_eq_some_iff]
  simp only [above?_one, h.mem_childrenOf, and_comm]

/-- No node stands below two children of one node. -/
theorem child_unique {m n id a b top : Nat} (ha : a ∈ tree.childrenOf top)
    (hb : b ∈ tree.childrenOf top) (hma : tree.above? m id = some a)
    (hnb : tree.above? n id = some b) : a = b := by
  -- Whichever is nearer to the node, the other one is above its parent.
  have hnear {m n a b : Nat} (hle : m ≤ n) (ha : a ∈ tree.childrenOf top)
      (hb : b ∈ tree.childrenOf top) (hma : tree.above? m id = some a)
      (hnb : tree.above? n id = some b) : a = b := by
    obtain ⟨more, rfl⟩ := Nat.exists_eq_add_of_le hle
    rw [above?_add, hma, Option.bind_some] at hnb
    cases more with
    | zero => exact Option.some.inj hnb
    | succ more =>
      rw [above?, h.mem_childrenOf.mp ha, Option.bind_some] at hnb
      have hle := h.above?_le hnb
      have hlt := (h.lt_of_mem hb).1
      omega
  rcases Nat.le_total m n with hle | hle
  · exact hnear hle ha hb hma hnb
  · exact (hnear hle hb ha hnb hma).symm

/-- The root is above every node. -/
theorem exists_above?_root {id : Nat} (hid : id < tree.nodes.size) :
    ∃ depth, tree.above? depth id = some root := by
  induction id using Nat.strongRecOn with
  | ind id ih =>
    by_cases hroot : id = root
    · exact ⟨0, congrArg some hroot⟩
    · obtain ⟨parent, hparent⟩ := h.exists_parent id hid hroot
      have hlt := h.parent_lt hparent
      obtain ⟨depth, hdepth⟩ := ih parent hlt (by omega)
      exact ⟨depth + 1, by rw [above?, hparent, Option.bind_some, hdepth]⟩

/-! ## The walk below a node -/

/-- What holds of a node as soon as it holds of its children holds of every node. -/
theorem children_induction {P : ∀ id, id < tree.nodes.size → Prop}
    (node : ∀ id hid,
      (∀ child (hchild : child ∈ tree.childrenOf id), P child (h.lt_of_mem hchild).2) → P id hid)
    (id : Nat) (hid : id < tree.nodes.size) : P id hid := by
  generalize hleft : tree.nodes.size - id = left
  induction left using Nat.strongRecOn generalizing id with
  | ind left ih =>
    refine node id hid fun child hchild => ?_
    have hlt := h.lt_of_mem hchild
    exact ih (tree.nodes.size - child) (by omega) child hlt.2 rfl

theorem walkFrom_eq {id : Nat} (hid : id < tree.nodes.size) (depth : Nat) :
    tree.walkFrom depth id =
      (depth, id) :: (tree.childrenOf id).flatMap (tree.walkFrom (depth + 1)) := by
  have hnode : tree.node? id = some tree.nodes[id] := Array.getElem?_eq_getElem hid
  have hchildren : tree.childrenOf id = tree.nodes[id].children := by
    rw [childrenOf, hnode]
    rfl
  rw [walkFrom, hnode, hchildren]
  refine congrArg _ (List.flatMap_congr fun child hchild => ?_)
  exact dif_pos (h.lt_of_mem (hchildren ▸ hchild))

theorem mem_walkFrom {top : Nat} (htop : top < tree.nodes.size) {depth place id : Nat} :
    (place, id) ∈ tree.walkFrom depth top ↔
      ∃ steps, place = depth + steps ∧ tree.above? steps id = some top := by
  induction top, htop using h.children_induction generalizing depth with
  | node top htop ih =>
    rw [h.walkFrom_eq htop, List.mem_cons, List.mem_flatMap, Prod.mk.injEq]
    constructor
    · rintro (⟨rfl, rfl⟩ | ⟨child, hchild, hmem⟩)
      · exact ⟨0, rfl, rfl⟩
      · obtain ⟨steps, rfl, habove⟩ := (ih child hchild).mp hmem
        exact ⟨steps + 1, by omega, h.above?_succ.mpr ⟨child, hchild, habove⟩⟩
    · rintro ⟨steps, rfl, habove⟩
      cases steps with
      | zero => exact .inl ⟨rfl, Option.some.inj habove⟩
      | succ steps =>
        obtain ⟨child, hchild, habove⟩ := h.above?_succ.mp habove
        exact .inr ⟨child, hchild, (ih child hchild).mpr ⟨steps, by omega, habove⟩⟩

/-- The nodes of the walk below a node. -/
theorem mem_map_walkFrom {top : Nat} (htop : top < tree.nodes.size) {depth id : Nat} :
    id ∈ (tree.walkFrom depth top).map Prod.snd ↔
      ∃ steps, tree.above? steps id = some top := by
  simp only [List.mem_map, Prod.exists, exists_eq_right, h.mem_walkFrom htop]
  constructor
  · rintro ⟨place, steps, -, habove⟩
    exact ⟨steps, habove⟩
  · rintro ⟨steps, habove⟩
    exact ⟨_, steps, rfl, habove⟩

theorem nodup_walkFrom {top : Nat} (htop : top < tree.nodes.size) (depth : Nat) :
    ((tree.walkFrom depth top).map Prod.snd).Nodup := by
  induction top, htop using h.children_induction generalizing depth with
  | node top htop ih =>
    rw [h.walkFrom_eq htop, List.map_cons, List.nodup_cons, List.map_flatMap]
    have hmem {child id : Nat} (hchild : child ∈ tree.childrenOf top)
        (hid : id ∈ (tree.walkFrom (depth + 1) child).map Prod.snd) :
        ∃ steps, tree.above? steps id = some child :=
      (h.mem_map_walkFrom (h.lt_of_mem hchild).2).mp hid
    constructor
    · -- The node itself is not below its children.
      rw [List.mem_flatMap]
      rintro ⟨child, hchild, hid⟩
      obtain ⟨steps, habove⟩ := hmem hchild hid
      have hle := h.above?_le habove
      have hlt := (h.lt_of_mem hchild).1
      omega
    · rw [List.nodup_flatMap]
      refine ⟨fun child hchild => ih child hchild (depth + 1), ?_⟩
      refine (h.nodup_childrenOf top).imp_of_mem ?_
      intro a b ha hb hne
      apply List.disjoint_left.mpr
      intro id hida hidb
      obtain ⟨m, hma⟩ := hmem ha hida
      obtain ⟨n, hnb⟩ := hmem hb hidb
      exact hne (h.child_unique ha hb hma hnb)

/-- The walk below a node that the walk comes to is a part of it. -/
theorem walkFrom_infix {top : Nat} (htop : top < tree.nodes.size) {depth place id : Nat}
    (hmem : (place, id) ∈ tree.walkFrom depth top) :
    tree.walkFrom place id <:+: tree.walkFrom depth top := by
  induction top, htop using h.children_induction generalizing depth with
  | node top htop ih =>
    have heq := h.walkFrom_eq htop depth
    rw [heq, List.mem_cons, List.mem_flatMap, Prod.mk.injEq] at hmem
    rcases hmem with ⟨rfl, rfl⟩ | ⟨child, hchild, hmem⟩
    · exact List.infix_rfl
    · have hinner := ih child hchild hmem
      have houter : tree.walkFrom (depth + 1) child <:+:
          (tree.childrenOf top).flatMap (tree.walkFrom (depth + 1)) := by
        rw [List.flatMap_def]
        exact List.infix_of_mem_flatten (List.mem_map_of_mem hchild)
      rw [heq]
      exact (hinner.trans houter).trans (List.suffix_cons _ _).isInfix

/-! ## The whole walk -/

theorem mem_walk {depth id : Nat} :
    (depth, id) ∈ tree.walk ↔ tree.above? depth id = some root := by
  rw [walk, h.mem_walkFrom h.rooted.root_lt]
  constructor
  · rintro ⟨steps, rfl, habove⟩
    rwa [Nat.zero_add]
  · intro habove
    exact ⟨depth, (Nat.zero_add depth).symm, habove⟩

theorem walk_perm : (tree.walk.map Prod.snd).Perm (List.range tree.nodes.size) := by
  unfold walk
  rw [List.perm_ext_iff_of_nodup (h.nodup_walkFrom h.rooted.root_lt 0) List.nodup_range]
  intro id
  rw [List.mem_range, h.mem_map_walkFrom h.rooted.root_lt]
  constructor
  · rintro ⟨steps, habove⟩
    exact lt_of_above? habove h.rooted.root_lt
  · exact h.exists_above?_root

/-- The nodes below a node follow it in the walk, before any other node. -/
theorem walk_block {id : Nat} (hid : id < tree.nodes.size) :
    ∃ before below after depth, tree.walk = before ++ (depth, id) :: below ++ after ∧
      ∀ other, other ∈ below.map Prod.snd ↔ ∃ steps, tree.above? (steps + 1) other = some id := by
  obtain ⟨depth, habove⟩ := h.exists_above?_root hid
  have hmem : (depth, id) ∈ tree.walkFrom 0 root := h.mem_walk.mpr habove
  obtain ⟨before, after, hwalk⟩ := h.walkFrom_infix h.rooted.root_lt hmem
  refine ⟨before, _, after, depth, by rw [← h.walkFrom_eq hid depth, hwalk]; rfl, fun other => ?_⟩
  rw [List.map_flatMap, List.mem_flatMap]
  constructor
  · rintro ⟨child, hchild, hother⟩
    obtain ⟨steps, habove⟩ := (h.mem_map_walkFrom (h.lt_of_mem hchild).2).mp hother
    exact ⟨steps, h.above?_succ.mpr ⟨child, hchild, habove⟩⟩
  · rintro ⟨steps, habove⟩
    obtain ⟨child, hchild, habove⟩ := h.above?_succ.mp habove
    exact ⟨child, hchild, (h.mem_map_walkFrom (h.lt_of_mem hchild).2).mpr ⟨steps, habove⟩⟩

/-- A parent stands before its children. -/
theorem parent_first {parent child : Nat} (hparent : tree.parentOf? child = some parent) :
    [parent, child].Sublist (tree.walk.map Prod.snd) := by
  have hlt : parent < tree.nodes.size :=
    Nat.lt_trans (h.parent_lt hparent) (lt_of_parentOf? hparent)
  obtain ⟨before, below, after, depth, hwalk, hbelow⟩ := h.walk_block hlt
  have hchild : child ∈ below.map Prod.snd :=
    (hbelow child).mpr ⟨0, (above?_one tree child).trans hparent⟩
  rw [hwalk, List.map_append, List.map_append, List.map_cons]
  have hblock : [parent, child].Sublist (parent :: below.map Prod.snd) :=
    (List.singleton_sublist.mpr hchild).cons_cons parent
  exact (hblock.trans (List.sublist_append_right _ _)).trans (List.sublist_append_left _ _)

end Linked

/-! ## The walk with a stack -/

/-- One turn of a walk that keeps the places to come on a stack: the node on top
gives way to its children, each one step deeper. -/
def turn (tree : NamespaceTree) : List (Nat × Nat) → List (Nat × Nat)
  | [] => []
  | (depth, id) :: rest => (tree.childrenOf id).map (fun child => (depth + 1, child)) ++ rest

/-- The walks below the places of a stack, one after the other. -/
def toCome (tree : NamespaceTree) (stack : List (Nat × Nat)) : List (Nat × Nat) :=
  stack.flatMap fun place => tree.walkFrom place.1 place.2

namespace Linked

variable {tree : NamespaceTree} (h : Linked tree)
include h

theorem toCome_turn {depth id : Nat} {rest : List (Nat × Nat)} (hid : id < tree.nodes.size) :
    tree.toCome ((depth, id) :: rest) =
      (depth, id) :: tree.toCome (tree.turn ((depth, id) :: rest)) := by
  rw [toCome, toCome, turn, List.flatMap_cons, List.flatMap_append, List.flatMap_map,
    h.walkFrom_eq hid, List.cons_append]

theorem lt_of_mem_turn {stack : List (Nat × Nat)}
    (hstack : ∀ place ∈ stack, place.2 < tree.nodes.size) :
    ∀ place ∈ tree.turn stack, place.2 < tree.nodes.size := by
  intro place hplace
  cases stack with
  | nil => cases hplace
  | cons top rest =>
    rcases List.mem_append.mp hplace with hchild | hrest
    · obtain ⟨child, hmem, rfl⟩ := List.mem_map.mp hchild
      exact (h.lt_of_mem hmem).2
    · exact hstack place (List.mem_cons_of_mem _ hrest)

/-- After so many turns the next place of the walk is on top of the stack. -/
theorem head?_iterate_turn (n : Nat) {stack : List (Nat × Nat)}
    (hstack : ∀ place ∈ stack, place.2 < tree.nodes.size) :
    (tree.turn^[n] stack).head? = (tree.toCome stack)[n]? := by
  induction n generalizing stack with
  | zero =>
    cases stack with
    | nil => rfl
    | cons top rest =>
      rw [h.toCome_turn (hstack top List.mem_cons_self)]
      rfl
  | succ n ih =>
    rw [Function.iterate_succ_apply, ih (h.lt_of_mem_turn hstack)]
    cases stack with
    | nil => rfl
    | cons top rest =>
      rw [h.toCome_turn (hstack top List.mem_cons_self), List.getElem?_cons_succ]

end Linked

/-! ## All histories -/

/-- Whatever is asked for, added and sorted, and in whatever order: every node
but the root has a parent that was made before it, and stands once among the
children of this parent and among those of no other node. The walk comes to every node
once; the nodes below a node follow it directly, and its depth is the number
of steps up to the root; a stack of the places to come shows the walk place
by place and is empty behind its end. Sorting moves children and members
and changes nothing else. A path leads to the node that it was given first, for good. -/
theorem every_history_keeps_one_tree {tree : NamespaceTree} (h : Later empty tree) :
    (∀ id < tree.size, id ≠ root →
      ∃ parent < id, tree.parentOf? id = some parent ∧ (tree.childrenOf parent).count id = 1 ∧
        ∀ other, other ≠ parent → id ∉ tree.childrenOf other) ∧
    (tree.parentOf? root = none ∧ ∀ other, root ∉ tree.childrenOf other) ∧
    (tree.walk.map Prod.snd).Perm (List.range tree.size) ∧
    (∀ depth id, (depth, id) ∈ tree.walk → tree.above? depth id = some root) ∧
    (∀ parent child, tree.parentOf? child = some parent →
      [parent, child].Sublist (tree.walk.map Prod.snd)) ∧
    (∀ id < tree.size,
      ∃ before below after depth, tree.walk = before ++ (depth, id) :: below ++ after ∧
        ∀ other, other ∈ below.map Prod.snd ↔
          ∃ steps, tree.above? (steps + 1) other = some id) ∧
    (∀ n, (tree.turn^[n] [(0, root)]).head? = tree.walk[n]?) ∧
    (∀ le, Reordered tree (tree.sort le)) ∧
    ∀ path later, Later (tree.getOrAdd path).2 later →
      later.get? path = some (tree.getOrAdd path).1 ∧
        later.getOrAdd path = ((tree.getOrAdd path).1, later) := by
  have hlinked := (h.kept linked_empty).1
  refine ⟨?_, ⟨hlinked.parentOf?_root, ?_⟩, hlinked.walk_perm, fun _ _ => hlinked.mem_walk.mp,
    fun _ _ => hlinked.parent_first, fun _ => hlinked.walk_block, ?_, reordered_sort, ?_⟩
  · intro id hid hroot
    obtain ⟨parent, hparent⟩ := hlinked.exists_parent id hid hroot
    refine ⟨parent, hlinked.parent_lt hparent, hparent, ?_, ?_⟩
    · exact List.count_eq_one_of_mem (hlinked.nodup_childrenOf parent)
        (hlinked.mem_childrenOf.mpr hparent)
    · intro other hother hmem
      have hother' := hlinked.mem_childrenOf.mp hmem
      exact hother (Option.some.inj (hother'.symm.trans hparent))
  · intro other hmem
    have hparent := hlinked.mem_childrenOf.mp hmem
    rw [hlinked.parentOf?_root] at hparent
    cases hparent
  · intro n
    rw [hlinked.head?_iterate_turn n, toCome, List.flatMap_singleton]
    · rfl
    · intro place hplace
      rw [List.mem_singleton.mp hplace]
      exact hlinked.rooted.root_lt
  · intro path later hlater
    have hfinds := getOrAdd_finds hlinked.rooted path
    have hasked := (Step.ask tree path).linked hlinked
    have hpath : later.get? path = some (tree.getOrAdd path).1 :=
      (hlater.kept hasked).2 hfinds.found
    exact ⟨hpath, getOrAdd_of_get? hpath⟩

/-- A tree with empty names, a path of two leading slashes, and a node that was
sorted before its last child came. -/
def tangledTree : NamespaceTree :=
  let tree := (empty.getOrAdd "b//y").2
  let tree := ((tree.getOrAdd "//a/b").2).addMember 4 7
  let tree := tree.sort fun a b => a ≤ b
  (tree.getOrAdd "/b/x/").2

theorem a_tangled_tree_is_one_tree : Later empty tangledTree ∧
    tangledTree.walk = [(0, 0), (1, 4), (2, 5), (1, 1), (2, 2), (3, 3), (2, 6), (3, 7)] ∧
    tangledTree.above? 3 3 = some root ∧
    (tangledTree.turn^[4] [(0, root)]).head? = some (2, 2) ∧
    (tangledTree.sort fun a b => b ≤ a).get? "//a/b" = some 5 := by
  have hhistory : Later empty tangledTree :=
    .tail (.tail (.tail (.tail (.single (.ask _ "b//y")) (.ask _ "//a/b")) (.member _ 4 7))
      (.sort _ _)) (.ask _ "/b/x/")
  have hwalk : tangledTree.walk =
      [(0, 0), (1, 4), (2, 5), (1, 1), (2, 2), (3, 3), (2, 6), (3, 7)] := by cbv
  have hasked : tangledTree.getOrAdd "//a/b" = (5, tangledTree) := by
    apply getOrAdd_of_get?
    decide +kernel
  have hlater : Later (tangledTree.getOrAdd "//a/b").2 (tangledTree.sort fun a b => b ≤ a) := by
    rw [hasked]
    exact .single (.sort _ _)
  obtain ⟨-, -, -, hdepth, -, -, hturn, -, hpath⟩ := every_history_keeps_one_tree hhistory
  refine ⟨hhistory, hwalk, hdepth 3 3 ?_, ?_, ?_⟩
  · rw [hwalk]
    decide
  · rw [hturn 4, hwalk]
    rfl
  · rw [(hpath "//a/b" _ hlater).1, hasked]

end BinaryAtlas.NamespaceTree
