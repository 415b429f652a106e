-- A document comes back from its text. A record is written without its list of
-- records if there is none in it, and without its text if it has none; the
-- reader puts both back. Only the nesting of records is bounded.
import BinaryAtlas.Export.Json
import BinaryAtlas.Proofs.JsonShapes

namespace BinaryAtlas

theorem RecordKind.ofJson?_ofString (kind : RecordKind) (room : Nat) :
    RecordKind.ofJson? room (.ofString kind.word) = some kind := by
  have hword : RecordKind.ofWord? kind.word = some kind := by
    cases kind <;> decide +kernel
  simp [RecordKind.ofJson?, Json.ofString, Json.choice?, hword]

namespace Record

open Json

/-- What holds of a record if it holds of those inside holds of every record. -/
theorem tree_induction {motive : Record → Prop}
    (node : ∀ record : Record, (∀ child ∈ record.children, motive child) → motive record)
    (record : Record) : motive record :=
  node record fun child _ => tree_induction node child
termination_by sizeOf record
decreasing_by
  obtain ⟨kind, attributes, children, text⟩ := record
  have hlt : sizeOf child < sizeOf children := List.sizeOf_lt_of_mem ‹_›
  simp only [Record.mk.sizeOf_spec]
  omega

/-! ## The parts of a record -/

theorem childrenJson_eq (records : List Record) : childrenJson records = records.map toJson := by
  induction records with
  | nil => rfl
  | cons record records ih => rw [childrenJson, ih, List.map_cons]

/-- The parts that are written, under their names. -/
def parts (record : Record) : List (String × Json) :=
  [("kind", .ofString record.kind.word), ("attributes", ofTexts record.attributes)] ++
    (if record.children.isEmpty then []
      else [("children", .list (record.children.map toJson))]) ++
    (match record.text with
      | some text => [("text", .ofString text)]
      | none => [])

variable (record : Record)

theorem toJson_eq : record.toJson = .ofFields record.parts := by
  obtain ⟨kind, attributes, children, text⟩ := record
  unfold toJson
  rw [childrenJson_eq]
  rfl

theorem forall_mem_parts (p : Json → Prop) :
    (∀ part ∈ record.parts, p part.2) ↔
      p (.ofString record.kind.word) ∧ p (ofTexts record.attributes) ∧
        (record.children ≠ [] → p (.list (record.children.map toJson))) ∧
        ∀ text, record.text = some text → p (.ofString text) := by
  unfold parts
  cases record.children <;> cases record.text <;> simp

theorem sublist_partNames : (record.parts.map Prod.fst).Sublist partNames := by
  unfold parts
  cases record.children with
  | nil =>
    cases record.text with
    | none => exact (by decide : ["kind", "attributes"].Sublist partNames)
    | some text => exact (by decide : ["kind", "attributes", "text"].Sublist partNames)
  | cons child children =>
    cases record.text with
    | none => exact (by decide : ["kind", "attributes", "children"].Sublist partNames)
    | some text => exact List.Sublist.refl partNames

/-- The reader finds each part of a record under its name. -/
theorem fields?_toJson (room : Nat) :
    ∃ fields, record.toJson.fields? partNames (room + 1) = some (fields, room) ∧
      fields.get? "kind" = some (.ofString record.kind.word) ∧
      fields.get? "attributes" = some (ofTexts record.attributes) ∧
      fields.get? "children" = (if record.children.isEmpty then none
        else some (.list (record.children.map toJson))) ∧
      fields.get? "text" = record.text.map Json.ofString := by
  refine ⟨{ named := true, parts := record.parts.reverse }, ?_, ?_⟩
  · rw [toJson_eq]
    exact fields?_ofFields record.sublist_partNames (by decide) room
  · unfold Fields.get? parts
    cases record.children <;> cases record.text <;> exact ⟨rfl, rfl, rfl, rfl⟩

/-! ## Records -/

/-- The records inside are read as the items of any list are. -/
theorem ofJson?_succ (room : Nat) (json : Json) :
    ofJson? (room + 1) json = (do
      let (fields, _) ← json.fields? partNames (room + 1)
      let kind ← fields.required "kind" (RecordKind.ofJson? room)
      let attributes ← fields.orElse "attributes" ∅ (texts? room)
      let children ← fields.orElse "children" [] (list? ofJson? room)
      let text ← fields.orElse "text" none (nullable? string?)
      some { kind, attributes, children, text }) := by
  cases room with
  | zero => rfl
  | succ room =>
    -- The definition has the reader of lists written out, and `list?` is the same value by value.
    delta ofJson?
    refine congrArg (Option.bind _) (funext fun fields => ?_)
    refine congrArg (Option.bind _) (funext fun kind => ?_)
    refine congrArg (Option.bind _) (funext fun attributes => ?_)
    refine congrArg (fun children => Option.bind children _) ?_
    refine congrArg (fields.1.orElse "children" []) (funext fun part => ?_)
    cases part <;> rfl

theorem textual_toJson : Textual record.toJson := by
  induction record using tree_induction with
  | node record ih =>
    rw [toJson_eq]
    apply textual_ofFields
    rw [forall_mem_parts]
    refine ⟨textual_ofString _, textual_ofTexts _, fun _ => .list ?_, fun _ _ =>
      textual_ofString _⟩
    rwa [List.forall_mem_map]

/-- A record takes room for its attributes, and for the records inside if there are any. -/
theorem depth_toJson_le_iff {record : Record} {room : Nat} :
    record.toJson.depth ≤ room + 2 ↔ ∀ child ∈ record.children, child.toJson.depth ≤ room := by
  rw [toJson_eq, depth_ofFields_le_iff, record.forall_mem_parts fun part => part.depth ≤ room + 1,
    depth_ofString, depth_ofTexts, depth_list_le_iff, List.forall_mem_map]
  constructor
  · rintro ⟨-, -, hchildren, -⟩ child hchild
    exact hchildren (List.ne_nil_of_mem hchild) child hchild
  · intro hchildren
    refine ⟨Nat.zero_le _, Nat.le_add_left 1 room, fun _ => hchildren, fun text _ => ?_⟩
    rw [depth_ofString]
    exact Nat.zero_le _

theorem one_lt_depth_toJson : 1 < record.toJson.depth := by
  refine Nat.lt_of_not_le fun hle => ?_
  rw [toJson_eq, depth_ofFields_le_iff, record.forall_mem_parts fun part => part.depth ≤ 0,
    depth_ofTexts] at hle
  exact absurd hle.2.1 (by decide)

theorem ofJson?_one : ofJson? 1 record.toJson = none := by
  obtain ⟨fields, hfields, hkind, hattributes, -⟩ := record.fields?_toJson 0
  have hroom : texts? 0 (ofTexts record.attributes) = none := rfl
  rw [ofJson?_succ, hfields]
  simp [Fields.required, Fields.orElse, hkind, hattributes, RecordKind.ofJson?_ofString, hroom]

/-- With room for its attributes, a record is read back if those inside are. -/
theorem ofJson?_toJson (room : Nat) :
    ofJson? (room + 2) record.toJson =
      ((record.children.map toJson).mapM (ofJson? room)).map fun children =>
        { record with children } := by
  obtain ⟨fields, hfields, hkind, hattributes, hchildren, htext⟩ := record.fields?_toJson (room + 1)
  have hreadKind : fields.required "kind" (RecordKind.ofJson? (room + 1)) = some record.kind := by
    rw [Fields.required, hkind, Option.bind_some, RecordKind.ofJson?_ofString]
  have hreadAttributes : fields.orElse "attributes" ∅ (texts? (room + 1)) =
      some record.attributes := by
    rw [Fields.orElse, hattributes]
    exact texts?_ofTexts record.attributes room
  have hreadChildren : fields.orElse "children" [] (list? ofJson? (room + 1)) =
      (record.children.map toJson).mapM (ofJson? room) := by
    rw [Fields.orElse, hchildren]
    cases record.children <;> rfl
  have hreadText : fields.orElse "text" none (nullable? string?) = some record.text := by
    rw [Fields.orElse, htext]
    cases record.text with
    | none => rfl
    | some text => exact congrArg (Option.map some) (string?_ofString text)
  rw [ofJson?_succ, hfields]
  simp only [Option.bind_eq_bind, Option.bind_some, hreadKind, hreadAttributes, hreadChildren,
    hreadText, Option.map_eq_bind]
  rfl

/-- A record is read back if there is room for the lists and objects that it is written as. -/
theorem readsBack : ReadsBack ofJson? toJson record := by
  induction record using tree_induction with
  | node record ih =>
    intro room
    have hdepth := record.one_lt_depth_toJson
    match room with
    | 0 => rw [if_neg (by omega)]; rfl
    | 1 => rw [if_neg (by omega), ofJson?_one]
    | room + 2 =>
      rw [ofJson?_toJson, mapM_readsBack ih]
      simp only [depth_toJson_le_iff]
      split
      · cases record
        rfl
      · rfl

end Record

namespace Export

open Json

theorem textual_toJson (doc : Export) : Textual doc.toJson := by
  apply textual_ofFields
  rw [Record.childrenJson_eq, List.forall_mem_singleton]
  apply Textual.list
  rw [List.forall_mem_map]
  exact fun record _ => record.textual_toJson

theorem depth_toJson_le_iff {doc : Export} {room : Nat} :
    doc.toJson.depth ≤ room + 2 ↔ ∀ record ∈ doc.records, record.toJson.depth ≤ room := by
  rw [toJson, Record.childrenJson_eq, depth_ofFields_le_iff, List.forall_mem_singleton,
    depth_list_le_iff, List.forall_mem_map]

theorem ofJson?_toJson (doc : Export) (room : Nat) :
    ofJson? (room + 2) doc.toJson =
      if doc.toJson.depth ≤ room + 2 then some doc else none := by
  have hfields : doc.toJson.fields? ["records"] (room + 2) =
      some ({ named := true, parts := [("records", .list (doc.records.map Record.toJson))] },
        room + 1) := by
    rw [toJson, Record.childrenJson_eq]
    refine fields?_ofFields ?_ (by decide) (room + 1)
    exact List.Sublist.refl ["records"]
  have hrecords : list? Record.ofJson? (room + 1) (.list (doc.records.map Record.toJson)) =
      if doc.toJson.depth ≤ room + 2 then some doc.records else none := by
    simp only [depth_toJson_le_iff]
    exact mapM_readsBack (fun record _ => record.readsBack) room
  rw [ofJson?, hfields]
  simp only [Option.bind_eq_bind, Option.bind_some, Fields.required, Fields.get?,
    List.lookup_cons_self, hrecords]
  split <;> rfl

/-- The text of a document is read back as this document: records of any kind, attributes of
any names and values, records in records, no text and empty texts. Only a document
that nests more than 127 lists and objects is refused. -/
theorem a_document_is_read_back_unless_it_nests_too_deep (doc : Export) :
    parse doc.render = if doc.toJson.depth ≤ 127 then .ok doc else .error .malformedJson := by
  have hjson := doc.ofJson?_toJson 125
  unfold parse render
  rw [parse?_render doc.textual_toJson, Option.bind_some, nestingLimit, hjson]
  by_cases hdepth : doc.toJson.depth ≤ 127
  · rw [if_pos hdepth, if_pos hdepth]
  · rw [if_neg hdepth, if_neg hdepth]

end Export

end BinaryAtlas
