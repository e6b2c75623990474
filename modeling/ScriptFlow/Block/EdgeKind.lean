/-!
Why control passes along an edge between two blocks.
-/

namespace ScriptFlow

/-- The reason for which a block is left towards one of its children. -/
inductive EdgeKind where
  | unconditional
  | conditionalTrue
  | conditionalFalse
  | functionCall
  | functionReturn
  | storeState
  | dead
  deriving DecidableEq, Repr

namespace EdgeKind

/-- The word for an edge kind. -/
def text : EdgeKind → String
  | .unconditional => "unconditional"
  | .conditionalTrue => "conditional_true"
  | .conditionalFalse => "conditional_false"
  | .functionCall => "function_call"
  | .functionReturn => "function_return"
  | .storeState => "store_state"
  | .dead => "dead"

/-- The name of an edge kind. -/
def name (kind : EdgeKind) : String :=
  kind.text.toUpper

/-- Every edge kind, in the alphabetical order of its word. -/
def all : List EdgeKind :=
  [.conditionalFalse, .conditionalTrue, .dead, .functionCall, .functionReturn,
    .storeState, .unconditional]

theorem mem_all (kind : EdgeKind) : kind ∈ all := by
  cases kind <;> decide

example : (all.map text).Pairwise (· < ·) := by decide +kernel

/-- The edge kind that a word stands for. -/
def ofText? (text : String) : Option EdgeKind :=
  all.find? fun kind => kind.text = text

/-- The edge kind with the given name. -/
def ofName? (name : String) : Option EdgeKind :=
  all.find? fun kind => kind.name = name

/-- A kind of edge is read back from its word. -/
theorem ofText?_text (kind : EdgeKind) : ofText? kind.text = some kind := by
  cases kind <;> decide +kernel

/-- The edge enters code that is not part of the flow it leaves: a subroutine or
a stored state. -/
def isSubroutineCall : EdgeKind → Bool
  | .functionCall | .storeState => true
  | _ => false

end EdgeKind

end ScriptFlow
