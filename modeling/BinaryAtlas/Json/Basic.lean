-- JSON values. The leaves keep the bytes that spell them, so that a value
-- nobody asks for is never interpreted: a text may stand there with a broken
-- character, and a number with any count of digits.

namespace BinaryAtlas

inductive Json
  | null
  | flag (value : Bool)
  | number (spelling : List UInt8)
  /-- A text, spelled as between its quotes. -/
  | text (spelling : List UInt8)
  | list (items : List Json)
  /-- Entries in the order of the text, each with the spelling of its name. -/
  | object (entries : List (List UInt8 × Json))
deriving Inhabited

end BinaryAtlas
