/-!
Control constructs, as a pass that recognises loops and conditions records them
on the blocks that take part.
-/

namespace ScriptFlow

/-- An identifier of a block: its place in the arena that holds it. -/
abbrev BlockId := Nat

/-- The part that a block plays in a control construct. -/
inductive ControlRole where
  | none | doWhileHead | doWhileTail | doWhileNext | whileHead | whileTail
  | whileNext | breakOut | continueOn | returnOut | ifCond | ifTrue | ifElse
  | ifNext
  deriving DecidableEq, Repr

namespace ControlRole

/-- Every role, by rising code. -/
def all : List ControlRole :=
  [.none, .doWhileHead, .doWhileTail, .doWhileNext, .whileHead, .whileTail,
    .whileNext, .breakOut, .continueOn, .returnOut, .ifCond, .ifTrue, .ifElse,
    .ifNext]

theorem mem_all (role : ControlRole) : role ∈ all := by
  cases role <;> decide

/-- The roles of a loop, in the order in which a block's loop is looked up. -/
def loopRoles : List ControlRole :=
  [.doWhileHead, .doWhileTail, .doWhileNext, .whileHead, .whileTail, .whileNext]

/-- The number of a role. -/
def code : ControlRole → Nat
  | .none => 0 | .doWhileHead => 1 | .doWhileTail => 2 | .doWhileNext => 3
  | .whileHead => 4 | .whileTail => 5 | .whileNext => 6 | .breakOut => 7
  | .continueOn => 8 | .returnOut => 9 | .ifCond => 10 | .ifTrue => 11
  | .ifElse => 12 | .ifNext => 13

/-- The name of a role. -/
def name : ControlRole → String
  | .none => "NONE" | .doWhileHead => "DO_WHILE_HEAD"
  | .doWhileTail => "DO_WHILE_TAIL" | .doWhileNext => "DO_WHILE_NEXT"
  | .whileHead => "WHILE_HEAD" | .whileTail => "WHILE_TAIL"
  | .whileNext => "WHILE_NEXT" | .breakOut => "BREAK"
  | .continueOn => "CONTINUE" | .returnOut => "RETURN" | .ifCond => "IF_COND"
  | .ifTrue => "IF_TRUE" | .ifElse => "IF_ELSE" | .ifNext => "IF_NEXT"

/-- The role with the given number. -/
def ofCode? (code : Int) : Option ControlRole :=
  all.find? fun role => (role.code : Int) = code

/-- The role with the given name. -/
def ofName? (name : String) : Option ControlRole :=
  all.find? fun role => role.name = name

/-- A role is read back from its code. -/
theorem ofCode?_code (role : ControlRole) : ofCode? role.code = some role := by
  cases role <;> rfl

/-- A role is read back from its name. -/
theorem ofName?_name (role : ControlRole) : ofName? role.name = some role := by
  cases role <;> decide +kernel

end ControlRole

/-- A control construct, seen from a block that takes part in it: the role of
that block, and the blocks in the places of the construct that are known. -/
structure Control where
  role : ControlRole
  loopHead : Option BlockId := none
  loopTail : Option BlockId := none
  loopNext : Option BlockId := none
  ifCond : Option BlockId := none
  ifTrue : Option BlockId := none
  ifElse : Option BlockId := none
  ifNext : Option BlockId := none
  deriving DecidableEq, Repr

end ScriptFlow
