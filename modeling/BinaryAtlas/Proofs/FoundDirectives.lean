-- The laws of the directives that a comment gives, well written or not. Each
-- stands in the comment as a well-formed directive, behind the ones before it;
-- its paths have no blanks around them, and it refers to what the store gives
-- out for the keys at them.
import BinaryAtlas.Proofs.CommentStretches

namespace BinaryAtlas

/-! ## Paths -/

namespace Text

theorem trim_prefix_dropWhile (cs : List Char) : trim cs <+: cs.dropWhile isBlank :=
  List.rdropWhile_prefix isBlank (cs.dropWhile isBlank)

theorem mem_of_mem_trim {cs : List Char} {c : Char} (h : c ∈ trim cs) : c ∈ cs :=
  (List.dropWhile_sublist isBlank).subset ((trim_prefix_dropWhile cs).subset h)

/-- Text without blanks at its ends has none to lose. -/
theorem trim_trim (cs : List Char) : trim (trim cs) = trim cs := by
  have hstart : (trim cs).dropWhile isBlank = trim cs := by
    have hfirst := List.head?_dropWhile_not isBlank cs
    have hkept := trim_prefix_dropWhile cs
    generalize cs.dropWhile isBlank = kept at hfirst hkept
    cases kept with
    | nil => rw [List.prefix_nil.mp hkept, List.dropWhile_nil]
    | cons c rest =>
      obtain hnil | ⟨others, htrim, -⟩ := List.prefix_cons_iff.mp hkept
      · rw [hnil, List.dropWhile_nil]
      · rw [htrim, List.dropWhile_cons_of_neg (by simpa using hfirst)]
  rw [trim, hstart]
  exact List.rdropWhile_idempotent isBlank (cs.dropWhile isBlank)

end Text

namespace Directive

variable {Store Ref Ref' : Type}

/-- A path with a character in it, but no blanks at its ends and nothing that
ends a path. -/
structure IsTidy (path : String) : Prop where
  nonempty : path ≠ ""
  trimmed : Text.trimmed path = path
  plain : ∀ c ∈ path.toList, isPathEnd c = false

theorem isTidy_trimmed {path : WrittenPath} (h : path.trimmed ≠ []) :
    IsTidy (.ofList path.trimmed) where
  nonempty := by simpa [← String.toList_inj] using h
  trimmed := by rw [Text.trimmed, String.toList_ofList, WrittenPath.trimmed, Text.trim_trim]
  plain c hc := by
    rw [String.toList_ofList] at hc
    exact path.plain c (Text.mem_of_mem_trim hc)

/-! ## References -/

/-- The paths of the directive are tidy, and it refers to what stands for the key
at its path. -/
inductive Refers (reference : TypeKey → Ref) : Directive Ref → Prop
  | pointsTo {path : String} {key : TypeKey} (hpath : IsTidy path)
      (hkey : TypeKey.parse? path = some key) :
      Refers reference (.pointsTo path (reference key.trimmed))
  | readAs {path : String} {key : TypeKey} (hpath : IsTidy path)
      (hkey : TypeKey.parse? path = some key) :
      Refers reference (.readAs path (reference key.trimmed))
  | lengthFrom {member : String} (hmember : IsTidy member) : Refers reference (.lengthFrom member)
  | child {path : String} {inner : Directive Ref} (hpath : IsTidy path)
      (hinner : Refers reference inner) : Refers reference (.child path inner)

theorem Refers.map {reference : TypeKey → Ref} {d : Directive Ref} (h : d.Refers reference)
    (f : Ref → Ref') : (d.map f).Refers (f ∘ reference) := by
  induction h with
  | pointsTo hpath hkey => exact .pointsTo hpath hkey
  | readAs hpath hkey => exact .readAs hpath hkey
  | lengthFrom hmember => exact .lengthFrom hmember
  | child hpath _ ih => exact .child hpath ih

theorem parse?_of_key? {path : WrittenPath} {key : TypeKey} (h : path.key? = some key) :
    IsTidy (.ofList path.trimmed) ∧
      ∃ whole, TypeKey.parse? (.ofList path.trimmed) = some whole ∧ key = whole.trimmed := by
  have hpath : path.trimmed ≠ [] := by
    rw [ne_eq, ← WrittenPath.key?_eq_none_iff, h]
    exact Option.some_ne_none key
  obtain ⟨whole, hwhole, rfl⟩ := Option.map_eq_some_iff.mp h
  exact ⟨isTidy_trimmed hpath, whole, hwhole, rfl⟩

/-- What a written directive means has tidy paths and refers to the keys at them. -/
theorem refers_of_meaning? {written : WrittenDirective} {meaning : Directive TypeKey}
    (h : written.meaning? = some meaning) : meaning.Refers id := by
  fun_induction WrittenDirective.meaning? written generalizing meaning with
  | case1 name gap before path after hname =>
    obtain ⟨key, hkey, rfl⟩ := Option.map_eq_some_iff.mp h
    obtain ⟨hpath, whole, hwhole, rfl⟩ := parse?_of_key? hkey
    exact .pointsTo hpath hwhole
  | case2 name gap before path after hname =>
    obtain ⟨key, hkey, rfl⟩ := Option.map_eq_some_iff.mp h
    obtain ⟨hpath, whole, hwhole, rfl⟩ := parse?_of_key? hkey
    exact .readAs hpath hwhole
  | case3 => cases h
  | case4 name gap before path after hname hpath =>
    cases h
    exact .lengthFrom (isTidy_trimmed hpath)
  | case5 => cases h
  | case6 => cases h
  | case7 name gap before path after before' inner after' hname hpath ih =>
    obtain ⟨meaning, hmeaning, rfl⟩ := Option.map_eq_some_iff.mp h
    exact .child (isTidy_trimmed hpath) (ih hmeaning)
  | case8 => cases h
  | case9 => cases h

theorem refers_answer (d : ProperDirective) (intern : TypeKey → Store → Ref × Store)
    (store : Store) :
    (d.meaning.answer intern store).1.Refers fun key => (intern key store).1 := by
  rw [answer_fst]
  exact (refers_of_meaning? d.meaning?_written).map fun key => (intern key store).1

/-- Whatever a comment holds, it is a row of stretches, and the directives that it
gives are just the well-formed ones among these, in order. Each has tidy paths,
and refers to what the store gives out for the key at its path after all requests
of the stretches before it. -/
theorem a_comment_gives_only_directives_that_stand_in_it (comment : List Char) :
    ∃ stretches : List Stretch, stretches.flatMap Stretch.chars = comment ∧
      ∀ {Store Ref : Type} (intern : TypeKey → Store → Ref × Store) (store : Store),
        parse intern comment store =
            (Stretch.directives intern stretches store,
              ask intern (stretches.flatMap Stretch.requests) store) ∧
          ∀ before d after, stretches = before ++ .found d :: after →
            let mid := ask intern (before.flatMap Stretch.requests) store
            (d.meaning.answer intern mid).1.Refers fun key => (intern key mid).1 := by
  obtain ⟨stretches, hchars, hparse⟩ := CommentReading.exists_stretches comment
  exact ⟨stretches, hchars, fun intern store =>
    ⟨hparse intern store, fun before d after _ => refers_answer d intern _⟩⟩

-- A pointer that is cut off, an unknown name, a length of nothing and a child
-- without a directive: only the last length is found.
example : (parse numberKey "@ptr(foo @unknown(x) @len() @child(a, b) @len(n)".toList []).1 =
    [.lengthFrom "n"] := by decide +kernel

end Directive

end BinaryAtlas
