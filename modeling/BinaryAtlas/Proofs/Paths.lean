-- The laws of paths. A path is cut at its last slash, one leading slash of it
-- counts for nothing, and between its slashes stand the names that it goes
-- through.
import BinaryAtlas.Text.Blank

namespace BinaryAtlas.Text

/-! ## The last cut -/

theorem splitLast_eq_none_iff {mark : Char} {cs : List Char} :
    splitLast mark cs = none ↔ mark ∉ cs := by
  induction cs with
  | nil => simp [splitLast]
  | cons c rest ih =>
    rw [splitLast, List.mem_cons, not_or]
    cases hrest : splitLast mark rest with
    | some parts =>
      have hmem : mark ∈ rest := by
        rw [splitLast_eq_some hrest]
        exact List.mem_append_right _ List.mem_cons_self
      simp [hmem]
    | none => simp [ih.mp hrest, eq_comm]

theorem not_mem_of_splitLast {mark : Char} {cs before after : List Char}
    (h : splitLast mark cs = some (before, after)) : mark ∉ after := by
  induction cs generalizing before with
  | nil => cases h
  | cons c rest ih =>
    rw [splitLast] at h
    cases hrest : splitLast mark rest with
    | some parts =>
      rw [hrest] at h
      obtain ⟨-, rfl⟩ := Prod.mk.inj (Option.some.inj h)
      exact ih hrest
    | none =>
      rw [hrest] at h
      dsimp only at h
      split at h
      · obtain ⟨-, rfl⟩ := Prod.mk.inj (Option.some.inj h)
        exact splitLast_eq_none_iff.mp hrest
      · cases h

theorem splitLast_append {mark : Char} (before : List Char) {after : List Char}
    (h : mark ∉ after) : splitLast mark (before ++ mark :: after) = some (before, after) := by
  induction before with
  | nil => simp [splitLast, splitLast_eq_none_iff.mpr h]
  | cons c before ih => simp [splitLast, ih]

/-! ## The leading slash -/

theorem dropSlash_of_ne {c : Char} (h : c ≠ '/') (cs : List Char) :
    dropSlash (c :: cs) = c :: cs := by
  unfold dropSlash
  split
  · rename_i heq
    exact absurd (List.cons.inj heq).1 h
  · rfl

theorem dropSlash_append {cs : List Char} (h : cs ≠ []) (ds : List Char) :
    dropSlash (cs ++ ds) = dropSlash cs ++ ds := by
  cases cs with
  | nil => exact absurd rfl h
  | cons c cs =>
    by_cases hc : c = '/'
    · subst hc
      rfl
    · rw [List.cons_append, dropSlash_of_ne hc, dropSlash_of_ne hc, List.cons_append]

theorem dropSlash_of_head? {cs : List Char} (h : cs.head? ≠ some '/') : dropSlash cs = cs := by
  cases cs with
  | nil => rfl
  | cons c cs => exact dropSlash_of_ne (fun hc => h (congrArg some hc)) cs

theorem dropSlash_suffix (cs : List Char) : dropSlash cs <:+ cs := by
  unfold dropSlash
  split
  · exact List.suffix_cons _ _
  · exact List.suffix_rfl

/-- A text that has lost one slash and starts with another has started with two. -/
theorem head?_dropSlash_iff {cs : List Char} :
    (dropSlash cs).head? = some '/' ↔ ∃ rest, cs = '/' :: '/' :: rest := by
  constructor
  · intro h
    by_cases hcs : cs.head? = some '/'
    · obtain ⟨rest, rfl⟩ := List.head?_eq_some_iff.mp hcs
      obtain ⟨rest', hrest⟩ := List.head?_eq_some_iff.mp h
      exact ⟨rest', congrArg _ hrest⟩
    · rw [dropSlash_of_head? hcs] at h
      exact absurd h hcs
  · rintro ⟨rest, rfl⟩
    rfl

end BinaryAtlas.Text
