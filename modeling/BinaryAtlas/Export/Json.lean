-- Export records as JSON: reading a document, and writing it.
import BinaryAtlas.Export.Record
import BinaryAtlas.Json.Shape

namespace BinaryAtlas

def RecordKind.ofJson? (room : Nat) (json : Json) : Option RecordKind :=
  (json.choice? room).bind RecordKind.ofWord?

namespace Record

def partNames : List String := ["kind", "attributes", "children", "text"]

def ofJson? : Nat → Json → Option Record
  | 0, _ => none
  | room + 1, json => do
    let (fields, _) ← json.fields? partNames (room + 1)
    let kind ← fields.required "kind" (RecordKind.ofJson? room)
    let attributes ← fields.orElse "attributes" ∅ (Json.texts? room)
    let children ← fields.orElse "children" [] fun part =>
      match room, part with
      | inner + 1, .list items => items.mapM (ofJson? inner)
      | _, _ => none
    let text ← fields.orElse "text" none (Json.nullable? Json.string?)
    some { kind, attributes, children, text }

mutual

/-- The value that holds a record: no list of records if there is none
inside, and no text if it has none. -/
def toJson : Record → Json
  | { kind, attributes, children, text } =>
    .ofFields <|
      [("kind", .ofString kind.word),
        ("attributes", .ofFields (attributes.toList.map fun (name, value) =>
          (name, .ofString value)))] ++
      (if children.isEmpty then [] else [("children", .list (childrenJson children))]) ++
      (match text with
        | some text => [("text", .ofString text)]
        | none => [])

def childrenJson : List Record → List Json
  | [] => []
  | child :: children => toJson child :: childrenJson children

end

end Record

namespace Export

def ofJson? (room : Nat) (json : Json) : Option Export := do
  let (fields, room) ← json.fields? ["records"] room
  let records ← fields.required "records" (Json.list? Record.ofJson? room)
  some { records }

def toJson (doc : Export) : Json :=
  .ofFields [("records", .list (Record.childrenJson doc.records))]

/-- The document that a text holds. -/
def parse (bytes : List UInt8) : Except Fault Export :=
  match (Json.parse? bytes).bind (ofJson? Json.nestingLimit) with
  | some doc => .ok doc
  | none => .error .malformedJson

/-- The text of a document. -/
def render (doc : Export) : List UInt8 := doc.toJson.render

end Export

end BinaryAtlas
