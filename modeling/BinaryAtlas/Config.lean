-- Settings of a load: the pointer size, whether switch labels count as
-- symbols, and which call targets can never name a function.

namespace BinaryAtlas

/-! ## Call targets -/

structure CallTargets where
  /-- How the local labels begin. -/
  labelStart : String := "LAB_"
  /-- What a target with more than one destination holds. -/
  manyMark : String := "=>"
  /-- The operands of indirect calls. -/
  registers : List String := ["EAX", "EBX", "ECX", "EDX", "ESI", "EDI"]
deriving DecidableEq

namespace CallTargets

/-- The text holds the part as a run. -/
def holds (part : List Char) : List Char → Bool
  | [] => part.isEmpty
  | c :: cs => part.isPrefixOf (c :: cs) || holds part cs

/-- The target names no function. A label start or a mark that is empty
excludes nothing. -/
def isSkipped (targets : CallTargets) (target : String) : Bool :=
  let label := targets.labelStart.toList
  let mark := targets.manyMark.toList
  (!label.isEmpty && label.isPrefixOf target.toList) ||
    (!mark.isEmpty && holds mark target.toList) ||
    targets.registers.contains target

end CallTargets

/-! ## A load -/

/-- The pointer size of a program that says nothing about it, in bytes. -/
def defaultPointerSize : UInt32 := 4

structure LoadConfig where
  pointerSize : UInt32 := defaultPointerSize
  skipCaseSymbols : Bool := true
  callTargets : CallTargets := {}
deriving DecidableEq

end BinaryAtlas
