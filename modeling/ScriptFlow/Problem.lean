import ScriptFlow.Address
import ScriptFlow.Text

/-!
What can be wrong with a block graph, one constructor for each rule of a sound
graph, and the line that reports it.
-/

namespace ScriptFlow

/-- A structural problem of a block graph. Blocks and instructions are named by
their addresses. -/
inductive Problem where
  /-- Several blocks start at one address. -/
  | sharedAddress (count : Nat) (address : Address)
  | noInstructions (block : Address)
  /-- The first instruction stands elsewhere than its block. -/
  | startsAt (block start : Address)
  /-- The lists of children and of edge kinds have different lengths. -/
  | edgeKindCount (block : Address) (children kinds : Nat)
  /-- An edge leaves the graph. -/
  | foreignChild (block child : Address)
  /-- Parent and child record different numbers of edges between them. -/
  | edgeMismatch (block child : Address)
  /-- A parent is listed that has no edge to the block. -/
  | foreignParent (block parent : Address)
  /-- A block lists an instruction that another block owns, or none. -/
  | pointsElsewhere (instruction block : Address)
  /-- An instruction is listed a second time. -/
  | claimedTwice (instruction first second : Address)
  | uncovered (instruction : Address)
  /-- A block lists an instruction outside the given sequence. -/
  | foreignInstructions (block : Address)
  /-- The instructions of a block are no run of the given sequence. -/
  | scattered (block : Address)
  /-- A finding in the words of whoever made it. -/
  | remark (text : Text)
  deriving DecidableEq, Repr

/-- The line that reports a problem. -/
def Problem.message : Problem → Text
  | sharedAddress count address =>
      s!"{count} blocks share address {Address.text address}"
  | noInstructions block => s!"block {Address.text block} holds no instructions"
  | startsAt block start =>
      s!"block {Address.text block} starts with instruction {Address.text start}"
  | edgeKindCount block children kinds =>
      s!"block {Address.text block} has {children} children but {kinds} edge types"
  | foreignChild block child =>
      s!"block {Address.text block} links to foreign block {Address.text child}"
  | edgeMismatch block child =>
      s!"block {Address.text block} and child {Address.text child} disagree about their edges"
  | foreignParent block parent =>
      s!"block {Address.text block} lists parent {Address.text parent} which has no such child"
  | pointsElsewhere instruction block =>
      s!"instruction {Address.text instruction} in block {Address.text block} points elsewhere"
  | claimedTwice instruction first second =>
      s!"instruction {Address.text instruction} claimed by blocks {Address.text first}" ++
        s!" and {Address.text second}"
  | uncovered instruction => s!"instruction {Address.text instruction} belongs to no block"
  | foreignInstructions block => s!"block {Address.text block} holds foreign instructions"
  | scattered block =>
      s!"block {Address.text block} does not hold a consecutive instruction run"
  | remark text => text

end ScriptFlow
