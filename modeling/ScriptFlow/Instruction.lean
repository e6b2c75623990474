import ScriptFlow.AddressKind
import ScriptFlow.Block
import ScriptFlow.Fault

/-!
Instructions, and where control may go from one (`Instruction.exits`).

Instructions refer to each other by their index in the arena, so the references
cannot leave it, but they may otherwise point anywhere: backwards, to
themselves, or into code that is never reached.
-/

namespace ScriptFlow

/-- A decoded instruction of an arena of `n`. -/
structure Instruction (n : Nat) where
  address : Address
  opcode : Opcode
  args : List Int := []
  /-- The addresses that the instruction branches to, as decoded. -/
  targets : List Address := []
  kind : AddressKind := .plain
  /-- The instructions that it branches to. Those of a conditional jump end with
  the one reached without jumping. -/
  branches : List (Fin n) := []
  /-- The instruction that runs next if nothing intervenes. -/
  follower : Option (Fin n) := none
  /-- The block that owns the instruction. -/
  block : Option BlockId := none
  deriving DecidableEq, Repr

namespace Instruction

variable {n : Nat}

/-- A leader starts a block of its own. -/
def isLeader (instr : Instruction n) : Bool :=
  instr.kind ≠ .plain

/-- The follower or the branches are known already. -/
def isResolved (instr : Instruction n) : Bool :=
  instr.follower.isSome || !instr.branches.isEmpty

/-- The arguments with which `CPTOPSP` copies the element on top of the stack. -/
def doublerArgs : List Int := [-4, 4]

/-- Doubles the element on top of the stack. -/
def isStackDoubler (instr : Instruction n) : Bool :=
  instr.opcode = .cptopsp && instr.args = doublerArgs

/-- The error that reports a defect of the instruction. -/
def fault (instr : Instruction n) (defect : Defect) : Fault :=
  .malformed instr.address (.known instr.opcode) defect

/-- The instructions that control may reach next, each with the kind of the edge
to it, in the order in which their blocks become children. An operation with
another number of branches than it needs has none, and a call needs a follower
to come back to. -/
def exits (instr : Instruction n) : Except Defect (List (Fin n × EdgeKind)) :=
  match instr.opcode, instr.branches with
  | .jmp, [target] => .ok [(target, .unconditional)]
  | .jmp, branches => .error (.branchCount 1 branches.length)
  | .jz, [target, next] | .jnz, [target, next] =>
      .ok [(target, .conditionalTrue), (next, .conditionalFalse)]
  | .jz, branches | .jnz, branches => .error (.branchCount 2 branches.length)
  | .jsr, [target] => returning target .functionCall
  | .storestate, [target] => returning target .storeState
  | .jsr, branches | .storestate, branches =>
      .error (.branchCount 1 branches.length)
  | .retn, _ => .ok []
  | _, _ => .ok (instr.follower.toList.map ((·, .unconditional)))
where
  /-- The exits of a call: the code called, then the place it comes back to. -/
  returning (target : Fin n) (kind : EdgeKind) :
      Except Defect (List (Fin n × EdgeKind)) :=
    match instr.follower with
    | some next => .ok [(target, kind), (next, .functionReturn)]
    | none => .error .noFollower

/-- An instruction has at most two exits. -/
theorem length_exits_le {instr : Instruction n} {exits : List (Fin n × EdgeKind)}
    (found : instr.exits = .ok exits) : exits.length ≤ 2 := by
  unfold Instruction.exits Instruction.exits.returning at found
  have follower : instr.follower.toList.length ≤ 1 := by
    cases instr.follower <;> simp
  split at found <;> (try split at found) <;> cases found <;> simp
  omega

end Instruction

end ScriptFlow
