import ScriptFlow.Opcode
import ScriptFlow.Problem

/-!
The ways in which an operation on a script and its blocks can fail, by cause,
and the one wording of each (`Fault.message`).
-/

namespace ScriptFlow

/-- What is wrong with an instruction. -/
inductive Defect where
  /-- It does not stand above the instruction before it. -/
  | outOfOrder (previous : Address)
  /-- It branches to an address at which no instruction starts. -/
  | unresolvedTarget (target : Address)
  /-- Its operation needs another number of destinations. -/
  | branchCount (expected found : Nat)
  /-- It calls, and there is nothing to come back to. -/
  | noFollower
  /-- A finding in the words of whoever made it. -/
  | remark (text : Text)
  deriving DecidableEq, Repr

/-- A defect as the reason of an error. -/
def Defect.message : Defect → Text
  | outOfOrder previous => s!"address does not follow {Address.text previous}"
  | unresolvedTarget target =>
      s!"branch destination {Address.text target} is not an instruction"
  | branchCount expected found =>
      s!"expected {expected} branch destination(s), found {found}"
  | noFollower => "no instruction follows to return to"
  | remark text => text

/-- The operation that an error names: a known one, or the raw value that a
reader of scripts found in its place. -/
inductive OpcodeTag where
  | known (opcode : Opcode)
  | code (value : Int)
  | word (text : Text)
  deriving DecidableEq, Repr

/-- A known operation by its mnemonic, a raw value as it is. -/
def OpcodeTag.text : OpcodeTag → Text
  | known opcode => opcode.name
  | code value => toString value
  | word text => text

/-- Why an operation failed. -/
inductive Fault where
  /-- An instruction breaks a rule that the analysis relies on. -/
  | malformed (address : Address) (opcode : OpcodeTag) (defect : Defect)
  /-- Two blocks taken for parent and child have no edge between them. -/
  | notAnEdge (parent child : Address)
  /-- A graph fails its audit. -/
  | inconsistent (problems : List Problem)
  /-- There is no instruction to start from. -/
  | emptySequence
  /-- An instruction to be analysed already has a block. -/
  | alreadyOwned (instruction : Address)
  /-- An instruction with a block was to be given one. -/
  | claimed (instruction owner : Address)
  /-- The graph already has a block at the address. -/
  | duplicateBlock (address : Address)
  /-- A list has no such entry. -/
  | outOfRange
  deriving DecidableEq, Repr

namespace Fault

/-- Problems that a summary spells out; the rest are counted. -/
def shownProblems : Nat := 5

/-- The first problems, and how many more there are. -/
def summary (problems : List Problem) : Text :=
  let shown := Text.intercalate "; " ((problems.take shownProblems).map Problem.message)
  let hidden := problems.length - shownProblems
  if hidden = 0 then shown else shown ++ s!"; ... ({hidden} more)"

/-- The wording of a fault. -/
def message : Fault → Text
  | malformed address opcode defect =>
      s!"instruction {Address.text address} (" ++ opcode.text ++ "): " ++ defect.message
  | notAnEdge parent child =>
      s!"Child {Address.text child} does not exist in block {Address.text parent}"
  | inconsistent problems => "inconsistent block graph: " ++ summary problems
  | emptySequence => "cannot construct blocks from an empty instruction sequence"
  | alreadyOwned instruction =>
      s!"instruction {Address.text instruction} already belongs to a block"
  | claimed instruction owner =>
      s!"instruction {Address.text instruction} already belongs to block {Address.text owner}"
  | duplicateBlock address => s!"block {Address.text address} already exists"
  | outOfRange => "index out of range"

end Fault

end ScriptFlow
