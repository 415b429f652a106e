-- The kinds of export records, and the word that a document uses for each.

namespace BinaryAtlas

inductive RecordKind
  | enumeration
  | enumEntry
  | typeDef
  | functionDef
  | returnType
  | parameter
  | layout
  | union
  | member
  | comment
  | symbol
  | definedData
  | function
  | addressRange
deriving DecidableEq

namespace RecordKind

def word : RecordKind → String
  | enumeration => "ENUM"
  | enumEntry => "ENUM_ENTRY"
  | typeDef => "TYPE_DEF"
  | functionDef => "FUNCTION_DEF"
  | returnType => "RETURN_TYPE"
  | parameter => "PARAMETER"
  | layout => "STRUCTURE"
  | union => "UNION"
  | member => "MEMBER"
  | comment => "REGULAR_CMT"
  | symbol => "SYMBOL"
  | definedData => "DEFINED_DATA"
  | function => "FUNCTION"
  | addressRange => "ADDRESS_RANGE"

/-- All kinds. -/
def all : List RecordKind :=
  [enumeration, enumEntry, typeDef, functionDef, returnType, parameter, layout, union, member,
    comment, symbol, definedData, function, addressRange]

/-- The kind that a word stands for. -/
def ofWord? (word : String) : Option RecordKind := all.find? fun kind => kind.word == word

end RecordKind

end BinaryAtlas
