-- Quoted text, as messages show a value: between double quotes, with an
-- escape for every character that has no shape of its own.
import BinaryAtlas.Text.Printable

namespace BinaryAtlas.Text

/-! ## One character -/

/-- The escape of a character by its number, in lower-case hexadecimal
digits without padding. -/
def numberEscape (c : Char) : List Char :=
  ['\\', 'u', '\x7b'] ++ Nat.toDigits 16 c.toNat ++ ['\x7d']

/-- How a quoted text shows one character. -/
def quotedChar (c : Char) : List Char :=
  if c = '"' then ['\\', '"']
  else if c = '\\' then ['\\', '\\']
  else if c = '\t' then ['\\', 't']
  else if c = '\r' then ['\\', 'r']
  else if c = '\n' then ['\\', 'n']
  else if c = '\x00' then ['\\', '0']
  else if isPrintable c then [c]
  else numberEscape c

/-! ## A text -/

/-- The text between double quotes. -/
def quoted (s : String) : String :=
  .ofList ('"' :: s.toList.flatMap quotedChar ++ ['"'])

end BinaryAtlas.Text
