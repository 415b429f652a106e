-- The types that every program has before its declarations.
import BinaryAtlas.TypeGraph.Store

namespace BinaryAtlas

namespace Builtin

/-! ## Tables -/

/-- The primitives with their sizes in bytes. -/
def fixed : List (String × UInt32) := [
  ("bool", 1), ("sbyte", 1), ("word", 2), ("short", 2), ("int", 4), ("long", 4), ("dword", 4),
  ("longlong", 8), ("qword", 8), ("byte", 1), ("uchar", 1), ("ushort", 2), ("uint", 4),
  ("ulong", 4), ("ulonglong", 8), ("undefined", 1), ("undefined1", 1), ("undefined2", 2),
  ("undefined4", 4), ("undefined6", 6), ("undefined8", 8), ("char", 1), ("float", 4),
  ("double", 8), ("float10", 10), ("void", 0), ("va_list", 0), ("ImageBaseOffset32", 4),
  ("pointer32", 4)]

/-- The primitives of the size of a pointer. -/
def pointerSized : List String := ["pointer", "size_t"]

/-! ## Entities -/

def primitive (name : String) (size : UInt32) : Entity :=
  { key := .root name, shape := .primitive size }

/-- The builtin types for a pointer size, in the order of their slots. -/
def entities (pointerSize : UInt32) : List Entity :=
  { key := TypeStore.stringKey, shape := .string } ::
    (fixed.map fun (name, size) => primitive name size) ++
    pointerSized.map fun name => primitive name pointerSize

end Builtin

namespace TypeStore

def empty (pointerSize : UInt32) : TypeStore := { pointerSize }

def withBuiltins (pointerSize : UInt32) : TypeStore :=
  (Builtin.entities pointerSize).foldl (fun store e => (store.add e).2) (empty pointerSize)

end TypeStore

end BinaryAtlas
