-- Symbols as JSON.
import BinaryAtlas.Symbol
import BinaryAtlas.TypeKey.Json

namespace BinaryAtlas

namespace SymbolContext

def ofJson? (room : Nat) (json : Json) : Option SymbolContext := do
  let (word, data, room) ← json.choiceWith? room
  let key ← TypeKey.ofJson? room data
  if word = "Function" then some (.function key)
  else if word = "Global" then some (.global key)
  else none

def toJson : SymbolContext → Json
  | function key => .ofFields [("Function", key.toJson)]
  | global key => .ofFields [("Global", key.toJson)]

end SymbolContext

namespace Symbol

def ofJson? (room : Nat) (json : Json) : Option Symbol := do
  let (fields, room) ← json.fields? ["address", "key", "context"] room
  let address ← fields.required "address" Json.word32?
  let key ← fields.required "key" (TypeKey.ofJson? room)
  let context ← fields.optional "context" (SymbolContext.ofJson? room)
  some { address, key, context }

def toJson (symbol : Symbol) : Json :=
  .ofFields [("address", .ofWord32 symbol.address), ("key", symbol.key.toJson),
    ("context", .ofOption SymbolContext.toJson symbol.context)]

end Symbol

end BinaryAtlas
