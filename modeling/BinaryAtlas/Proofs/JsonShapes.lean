-- The laws of structures in JSON. An object of fields is read as these fields,
-- an object of texts as these texts, and a list item by item. The room that a
-- reader needs is told by the depth of the value.
import BinaryAtlas.Json.Shape
import BinaryAtlas.Proofs.JsonTrees

namespace BinaryAtlas.Json

/-! ## Depth -/

mutual

/-- How many lists and objects stand open at the deepest place of a value. -/
def depth : Json → Nat
  | .list items => itemsDepth items + 1
  | .object entries => entriesDepth entries + 1
  | _ => 0

def itemsDepth : List Json → Nat
  | [] => 0
  | item :: items => max (depth item) (itemsDepth items)

def entriesDepth : List (List UInt8 × Json) → Nat
  | [] => 0
  | (_, value) :: entries => max (depth value) (entriesDepth entries)

end

@[simp]
theorem depth_ofString (s : String) : (ofString s).depth = 0 := rfl

theorem depth_list_le_iff {items : List Json} {room : Nat} :
    (Json.list items).depth ≤ room + 1 ↔ ∀ item ∈ items, item.depth ≤ room := by
  rw [depth, Nat.add_le_add_iff_right]
  induction items with
  | nil => simp [itemsDepth]
  | cons item items ih => rw [itemsDepth, Nat.max_le, ih, List.forall_mem_cons]

theorem depth_object_le_iff {entries : List (List UInt8 × Json)} {room : Nat} :
    (Json.object entries).depth ≤ room + 1 ↔ ∀ entry ∈ entries, entry.2.depth ≤ room := by
  rw [depth, Nat.add_le_add_iff_right]
  induction entries with
  | nil => simp [entriesDepth]
  | cons entry entries ih => rw [entriesDepth, Nat.max_le, ih, List.forall_mem_cons]

theorem depth_ofFields_le_iff {fields : List (String × Json)} {room : Nat} :
    (ofFields fields).depth ≤ room + 1 ↔ ∀ field ∈ fields, field.2.depth ≤ room := by
  rw [ofFields, depth_object_le_iff, List.forall_mem_map]

theorem depth_ofFields_pos (fields : List (String × Json)) : 0 < (ofFields fields).depth := by
  rw [ofFields, depth]
  exact Nat.succ_pos _

/-! ## Values of texts -/

theorem textual_ofString (s : String) : Textual (ofString s) := .text s.toList

theorem textual_ofFields {fields : List (String × Json)} (h : ∀ field ∈ fields, Textual field.2) :
    Textual (ofFields fields) := by
  apply Textual.object
  · rw [List.forall_mem_map]
    exact fun field _ => ⟨field.1.toList, rfl⟩
  · rwa [List.forall_mem_map]

/-! ## Structures -/

theorem foldlM_add {names : List String} {fields before : List (String × Json)}
    (hnames : ∀ field ∈ fields, field.1 ∈ names) (hnodup : (fields.map Prod.fst).Nodup)
    (hbefore : ∀ field ∈ fields, before.lookup field.1 = none) :
    (fields.map fun (name, value) => (spellText name.toList, value)).foldlM (Fields.add names)
      before = some (fields.reverse ++ before) := by
  induction fields generalizing before with
  | nil => rfl
  | cons field fields ih =>
    obtain ⟨name, value⟩ := field
    rw [List.map_cons, List.nodup_cons] at hnodup
    have hadd : Fields.add names before (spellText name.toList, value) =
        some ((name, value) :: before) := by
      have hname := hnames (name, value) List.mem_cons_self
      have hfresh := hbefore (name, value) List.mem_cons_self
      simp only at hname hfresh
      simp [Fields.add, hname, hfresh]
    have hlater : ∀ field ∈ fields, ((name, value) :: before).lookup field.1 = none := by
      intro field hfield
      have hne : field.1 ≠ name := by
        intro hname
        exact hnodup.1 (List.mem_map.mpr ⟨field, hfield, hname⟩)
      rw [List.lookup_cons, beq_eq_false_iff_ne.mpr hne]
      exact hbefore field (List.mem_cons_of_mem _ hfield)
    rw [List.map_cons, foldlM_cons_of_some hadd,
      ih (fun field hfield => hnames field (List.mem_cons_of_mem _ hfield)) hnodup.2 hlater,
      List.reverse_cons, List.append_assoc, List.singleton_append]

/-- An object of fields is read as these fields, if the structure has fields of these
names in this order. -/
theorem fields?_ofFields {names : List String} {fields : List (String × Json)}
    (hfields : (fields.map Prod.fst).Sublist names) (hnames : names.Nodup) (room : Nat) :
    fields? names (room + 1) (ofFields fields) =
      some ({ named := true, parts := fields.reverse }, room) := by
  unfold fields? ofFields
  dsimp only
  rw [foldlM_add (fun field hfield => hfields.subset (List.mem_map_of_mem hfield))
    (hnames.sublist hfields) fun _ _ => rfl, List.append_nil]
  rfl

/-! ## Objects of texts -/

theorem ofList_toList (texts : Std.ExtTreeMap String String) :
    Std.ExtTreeMap.ofList texts.toList compare = texts := by
  apply Std.ExtTreeMap.ext_getElem?
  intro name
  cases h : texts[name]? with
  | none =>
    apply Std.ExtTreeMap.getElem?_ofList_of_contains_eq_false
    rw [List.contains_eq_mem, decide_eq_false_iff_not]
    intro hname
    obtain ⟨entry, hmem, rfl⟩ := List.mem_map.mp hname
    rw [Std.ExtTreeMap.mem_toList_iff_getElem?_eq_some, h] at hmem
    cases hmem
  | some text =>
    exact Std.ExtTreeMap.getElem?_ofList_of_mem Std.ReflCmp.compare_self
      Std.ExtTreeMap.distinct_keys_toList
      (Std.ExtTreeMap.mem_toList_iff_getElem?_eq_some.mpr h)

theorem foldlM_addText (texts : List (String × String)) (before : Std.ExtTreeMap String String) :
    (texts.map fun (name, value) => (spellText name.toList, ofString value)).foldlM addText before =
      some (texts.foldl (fun texts entry => texts.insert entry.1 entry.2) before) := by
  induction texts generalizing before with
  | nil => rfl
  | cons entry texts ih =>
    have hadd : addText before (spellText entry.1.toList, ofString entry.2) =
        some (before.insert entry.1 entry.2) := by
      simp [addText]
    rw [List.map_cons, foldlM_cons_of_some hadd, ih, List.foldl_cons]

/-- The object that holds these texts. -/
def ofTexts (texts : Std.ExtTreeMap String String) : Json :=
  .ofFields (texts.toList.map fun (name, value) => (name, .ofString value))

theorem textual_ofTexts (texts : Std.ExtTreeMap String String) : Textual (ofTexts texts) := by
  apply textual_ofFields
  rw [List.forall_mem_map]
  exact fun entry _ => textual_ofString entry.2

theorem depth_ofTexts (texts : Std.ExtTreeMap String String) : (ofTexts texts).depth = 1 := by
  have hle : (ofTexts texts).depth ≤ 1 := by
    rw [ofTexts, depth_ofFields_le_iff, List.forall_mem_map]
    exact fun entry _ => Nat.le_of_eq (depth_ofString entry.2)
  have hpos : 0 < (ofTexts texts).depth := depth_ofFields_pos _
  omega

/-- Texts are read back from their object, empty ones and empty names included. -/
theorem texts?_ofTexts (texts : Std.ExtTreeMap String String) (room : Nat) :
    texts? (room + 1) (ofTexts texts) = some texts := by
  unfold texts? ofTexts ofFields
  rw [List.map_map]
  exact (foldlM_addText texts.toList ∅).trans
    (congrArg some (Std.ExtTreeMap.ofList_eq_foldl.symm.trans (ofList_toList texts)))

/-! ## Lists -/

/-- A reader gives a value back from what was written if there is room for it. -/
def ReadsBack {α : Type} (read : Nat → Json → Option α) (write : α → Json) (value : α) : Prop :=
  ∀ room, read room (write value) = if (write value).depth ≤ room then some value else none

theorem mapM_readsBack {α : Type} {read : Nat → Json → Option α} {write : α → Json}
    {values : List α} (h : ∀ value ∈ values, ReadsBack read write value) (room : Nat) :
    (values.map write).mapM (read room) =
      if ∀ value ∈ values, (write value).depth ≤ room then some values else none := by
  induction values with
  | nil => simp
  | cons value values ih =>
    have hvalues := ih fun value' hvalue => h value' (List.mem_cons_of_mem value hvalue)
    rw [List.map_cons, List.mapM_cons, h value List.mem_cons_self, hvalues]
    have hall : (∀ value' ∈ value :: values, (write value').depth ≤ room) ↔
        (write value).depth ≤ room ∧ ∀ value' ∈ values, (write value').depth ≤ room :=
      List.forall_mem_cons
    by_cases hvalue : (write value).depth ≤ room
    · by_cases hrest : ∀ value' ∈ values, (write value').depth ≤ room
      · rw [if_pos hvalue, if_pos hrest, if_pos (hall.mpr ⟨hvalue, hrest⟩)]
        rfl
      · rw [if_pos hvalue, if_neg hrest, if_neg fun h => hrest (hall.mp h).2]
        rfl
    · rw [if_neg hvalue, if_neg fun h => hvalue (hall.mp h).1]
      rfl

end BinaryAtlas.Json
