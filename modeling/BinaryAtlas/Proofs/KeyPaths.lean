-- The laws of keys and paths. A key is written as a path, and the path spells
-- the key again as long as its scope starts with no slash. The scopes of keys
-- that were read from paths start with none, unless the path started with
-- three slashes and a fourth one came later.
import BinaryAtlas.Proofs.Paths
import BinaryAtlas.TypeKey

namespace BinaryAtlas.TypeKey

open Text

/-! ## Reading and writing -/

theorem toList_path (key : TypeKey) :
    key.path.toList = key.scope.toList ++ '/' :: key.name.toList := by
  simp [path]

/-- The key of a path without a slash but a leading one. -/
theorem parse?_of_none {path : String} (h : path ≠ "")
    (hcut : splitLast '/' (dropSlash path.toList) = none) :
    parse? path = some (root (.ofList (dropSlash path.toList))) := by
  unfold parse?
  split
  · rename_i hnil
    exact absurd (String.toList_eq_nil_iff.mp hnil) h
  · rw [hcut]

/-- The key of a path with a slash before its name. -/
theorem parse?_of_some {path : String} {before after : List Char}
    (hcut : splitLast '/' (dropSlash path.toList) = some (before, after)) :
    parse? path = some { scope := .ofList (dropSlash before), name := .ofList after } := by
  unfold parse?
  split
  · rename_i hnil
    rw [hnil] at hcut
    cases hcut
  · rw [hcut]
    simp [of]

theorem path_ne_empty (key : TypeKey) : key.path ≠ "" := by
  intro hempty
  have hnil := congrArg String.toList hempty
  rw [toList_path, String.toList_empty] at hnil
  exact List.append_ne_nil_of_right_ne_nil _ (List.cons_ne_nil _ _) hnil

/-- A key whose name has no slash is read back from its path, but two leading slashes of
its scope are lost. -/
theorem parse?_path {key : TypeKey} (hname : '/' ∉ key.name.toList) :
    parse? key.path =
      some { key with scope := .ofList (dropSlash (dropSlash key.scope.toList)) } := by
  by_cases hscope : key.scope.toList = []
  · have hpath : dropSlash key.path.toList = key.name.toList := by
      rw [toList_path, hscope]
      rfl
    rw [parse?_of_none key.path_ne_empty (hpath ▸ splitLast_eq_none_iff.mpr hname), hpath, hscope]
    simp [root, of, dropSlash]
  · have hcut : splitLast '/' (dropSlash key.path.toList) =
        some (dropSlash key.scope.toList, key.name.toList) := by
      rw [toList_path, dropSlash_append hscope]
      exact splitLast_append _ hname
    rw [parse?_of_some hcut, String.ofList_toList]

/-- A key is read back from its path exactly if its scope starts with no slash. -/
theorem parse?_path_eq_iff {key : TypeKey} (hname : '/' ∉ key.name.toList) :
    parse? key.path = some key ↔ key.scope.toList.head? ≠ some '/' := by
  rw [parse?_path hname]
  constructor
  · intro h hhead
    have hscope : dropSlash (dropSlash key.scope.toList) = key.scope.toList := by
      have hkey := congrArg (fun k => k.scope.toList) (Option.some.inj h)
      simpa using hkey
    obtain ⟨rest, hrest⟩ := List.head?_eq_some_iff.mp hhead
    rw [hrest] at hscope
    have hle : (dropSlash rest).length ≤ rest.length := (dropSlash_suffix rest).length_le
    have hlen : (dropSlash rest).length = rest.length + 1 := congrArg List.length hscope
    omega
  · intro h
    rw [dropSlash_of_head? h, dropSlash_of_head? h, String.ofList_toList]

/-! ## Paths read and written -/

/-- The path starts with three slashes, and a fourth one comes later. -/
def HasSpareSlash (path : String) : Prop :=
  ∃ rest, path.toList = '/' :: '/' :: '/' :: rest ∧ '/' ∈ rest

theorem not_hasSpareSlash_of_none {path : String}
    (hcut : splitLast '/' (dropSlash path.toList) = none) : ¬ HasSpareSlash path := by
  rintro ⟨rest, hpath, -⟩
  rw [hpath] at hcut
  exact splitLast_eq_none_iff.mp hcut List.mem_cons_self

/-- The scope of a path keeps a slash if the part before its last slash starts with two. -/
theorem hasSpareSlash_iff {path : String} {before after : List Char}
    (hcut : splitLast '/' (dropSlash path.toList) = some (before, after)) :
    HasSpareSlash path ↔ (dropSlash before).head? = some '/' := by
  have hpath := splitLast_eq_some hcut
  have hafter := not_mem_of_splitLast hcut
  unfold HasSpareSlash
  generalize path.toList = cs at hpath
  rw [head?_dropSlash_iff]
  constructor
  · rintro ⟨rest, rfl, hrest⟩
    change '/' :: '/' :: rest = _ at hpath
    -- The last slash is none of the first two, for a later one is in the rest.
    match before with
    | [] =>
      obtain ⟨-, rfl⟩ := List.cons.inj hpath
      exact absurd List.mem_cons_self hafter
    | [c] =>
      obtain ⟨-, htail⟩ := List.cons.inj hpath
      obtain ⟨-, rfl⟩ := List.cons.inj htail
      exact absurd hrest hafter
    | c :: d :: before =>
      obtain ⟨rfl, htail⟩ := List.cons.inj hpath
      obtain ⟨rfl, -⟩ := List.cons.inj htail
      exact ⟨before, rfl⟩
  · rintro ⟨inner, rfl⟩
    have hhead : (dropSlash cs).head? = some '/' := by rw [hpath]; rfl
    obtain ⟨rest, rfl⟩ := head?_dropSlash_iff.mp hhead
    change '/' :: rest = _ at hpath
    obtain ⟨-, rfl⟩ := List.cons.inj hpath
    exact ⟨_, rfl, List.mem_append_right _ List.mem_cons_self⟩

/-- Every path but the empty one spells a key. The path of this key spells the same
key again, unless the first path starts with three slashes and has a fourth one
later; then, and only then, the scope of the key starts with a slash, and the key that is read
back has lost it. -/
theorem a_path_reads_back_without_a_spare_slash {path : String} (h : path ≠ "") :
    ∃ key, parse? path = some key ∧
      (parse? key.path = some key ↔ ¬ HasSpareSlash path) ∧
      (key.scope.toList.head? = some '/' ↔ HasSpareSlash path) := by
  cases hcut : splitLast '/' (dropSlash path.toList) with
  | none =>
    have hname := splitLast_eq_none_iff.mp hcut
    have hspare := not_hasSpareSlash_of_none hcut
    refine ⟨_, parse?_of_none h hcut, ?_, ?_⟩
    · rw [parse?_path_eq_iff]
      · exact iff_of_true nofun hspare
      · simpa [root, of] using hname
    · exact iff_of_false nofun hspare
  | some parts =>
    obtain ⟨before, after⟩ := parts
    have hname := not_mem_of_splitLast hcut
    refine ⟨_, parse?_of_some hcut, ?_, ?_⟩
    · rw [parse?_path_eq_iff, hasSpareSlash_iff hcut]
      · simp
      · simpa using hname
    · rw [hasSpareSlash_iff hcut]
      simp

/-- Three slashes at the start are none too many before a bare name. -/
theorem a_name_behind_three_slashes_reads_back : "///a" ≠ "" ∧
    ∃ key, parse? "///a" = some key ∧ parse? key.path = some key := by
  have hne : "///a" ≠ "" := by decide
  obtain ⟨key, hkey, hback, -⟩ := a_path_reads_back_without_a_spare_slash hne
  refine ⟨hne, key, hkey, hback.mpr ?_⟩
  rintro ⟨rest, hrest, hmem⟩
  have hchars : "///a".toList = ['/', '/', '/', 'a'] := by decide
  rw [hchars] at hrest
  simp only [List.cons.injEq, true_and] at hrest
  subst hrest
  revert hmem
  decide

/-- The key of this path has the scope "/a", and is read back with the scope "a". -/
theorem a_scope_behind_three_slashes_loses_one :
    ∃ key, parse? "///a/b" = some key ∧ parse? key.path ≠ some key :=
  ⟨{ scope := "/a", name := "b" }, by decide +kernel, by decide +kernel⟩

end BinaryAtlas.TypeKey
