import Mathlib.Data.List.Chain
import Mathlib.Logic.Relation
import ScriptFlow.Arena

/-!
# The flow of control between instructions

The rule of the instruction set, said without reference to blocks and tasks.

* `Instruction.Leads` is a table of the edges by which an instruction may be left.
  An instruction with the wrong number of branches, or a call without a place to
  come back to, has no row in it. `Instruction.exits` computes the table: what it
  returns is a row (`Leads.of_exits`), and every row is returned (`Leads.exits`).
* `Instruction.successors` are the instructions that may run next. They are
  defined for every instruction, and `Arena.Reaches` closes them transitively.
* `Arena.Continues` is the condition under which a block goes on past an
  instruction, `Arena.Opens` the one under which an instruction starts a block.
-/

namespace ScriptFlow

variable {n : Nat}

/-- The operations that end a block: jumps, tests, calls, stores of a state and returns. -/
theorem Opcode.endsBlock_iff {op : Opcode} :
    op.endsBlock = true ↔
      op = .jmp ∨ op = .jz ∨ op = .jnz ∨ op = .jsr ∨ op = .storestate ∨ op = .retn := by
  cases op <;> decide

namespace Instruction

/-- The edges by which an instruction is left, by its operation. -/
inductive Leads (instr : Instruction n) : List (Fin n × EdgeKind) → Prop
  | jump {target : Fin n} :
    instr.opcode = .jmp → instr.branches = [target] →
    Leads instr [(target, .unconditional)]
  | test {target next : Fin n} :
    instr.opcode = .jz ∨ instr.opcode = .jnz → instr.branches = [target, next] →
    Leads instr [(target, .conditionalTrue), (next, .conditionalFalse)]
  | call {target next : Fin n} :
    instr.opcode = .jsr → instr.branches = [target] → instr.follower = some next →
    Leads instr [(target, .functionCall), (next, .functionReturn)]
  | store {target next : Fin n} :
    instr.opcode = .storestate → instr.branches = [target] →
    instr.follower = some next →
    Leads instr [(target, .storeState), (next, .functionReturn)]
  | finish : instr.opcode = .retn → Leads instr []
  | step {next : Fin n} :
    instr.opcode.endsBlock = false → instr.follower = some next →
    Leads instr [(next, .unconditional)]
  | stop : instr.opcode.endsBlock = false → instr.follower = none → Leads instr []

/-- The instructions that may run next, whether the instruction is well formed or
not. -/
def successors (instr : Instruction n) : List (Fin n) :=
  match instr.opcode with
  | .jmp => instr.branches.take 1
  | .jz | .jnz => instr.branches.take 2
  | .jsr | .storestate => instr.branches.take 1 ++ instr.follower.toList
  | .retn => []
  | _ => instr.follower.toList

/-- An operation that ends no block is left for its follower only. -/
theorem exits_of_not_endsBlock {instr : Instruction n}
    (goesOn : instr.opcode.endsBlock = false) :
    instr.exits = .ok (instr.follower.toList.map ((·, .unconditional))) := by
  unfold exits
  cases operation : instr.opcode <;> first | rfl | (rw [operation] at goesOn; cases goesOn)

/-- Nothing but its follower may run after an operation that ends no block. -/
theorem successors_of_not_endsBlock {instr : Instruction n}
    (goesOn : instr.opcode.endsBlock = false) :
    instr.successors = instr.follower.toList := by
  unfold successors
  cases operation : instr.opcode <;> first | rfl | (rw [operation] at goesOn; cases goesOn)

/-- The exits of an instruction are a row of the table. -/
theorem Leads.of_exits {instr : Instruction n} {edges : List (Fin n × EdgeKind)}
    (found : instr.exits = .ok edges) : instr.Leads edges := by
  by_cases ends : instr.opcode.endsBlock = true
  · unfold Instruction.exits exits.returning at found
    split at found
    next operation branches => cases found; exact .jump operation branches
    next => cases found
    next operation branches => cases found; exact .test (.inl operation) branches
    next operation branches => cases found; exact .test (.inr operation) branches
    next => cases found
    next => cases found
    next operation branches =>
      split at found
      next follower => cases found; exact .call operation branches follower
      next => cases found
    next operation branches =>
      split at found
      next follower => cases found; exact .store operation branches follower
      next => cases found
    next => cases found
    next => cases found
    next operation => cases found; exact .finish operation
    next jmp jz jnz jsr storestate retn _ _ _ _ _ =>
      rcases Opcode.endsBlock_iff.mp ends with same | same | same | same | same | same
      · exact (jmp same).elim
      · exact (jz same).elim
      · exact (jnz same).elim
      · exact (jsr same).elim
      · exact (storestate same).elim
      · exact (retn same).elim
  · have goesOn := Bool.eq_false_iff.mpr ends
    rw [exits_of_not_endsBlock goesOn] at found
    cases found
    cases follower : instr.follower with
    | none => exact .stop goesOn follower
    | some next => exact .step goesOn follower

/-- A row of the table gives the exits of its instruction. -/
theorem Leads.exits {instr : Instruction n} {edges : List (Fin n × EdgeKind)}
    (leads : instr.Leads edges) : instr.exits = .ok edges := by
  cases leads with
  | jump operation branches => rw [Instruction.exits, operation, branches]
  | test operation branches =>
      rcases operation with operation | operation <;>
        rw [Instruction.exits, operation, branches]
  | call operation branches follower =>
      simp only [Instruction.exits, operation, branches, exits.returning, follower]
  | store operation branches follower =>
      simp only [Instruction.exits, operation, branches, exits.returning, follower]
  | finish operation => rw [Instruction.exits, operation]
  | step goesOn follower => rw [exits_of_not_endsBlock goesOn, follower]; rfl
  | stop goesOn follower => rw [exits_of_not_endsBlock goesOn, follower]; rfl

/-- A well-formed instruction is followed by the ends of its edges. -/
theorem Leads.successors_eq {instr : Instruction n} {edges : List (Fin n × EdgeKind)}
    (leads : instr.Leads edges) : instr.successors = edges.map (·.1) := by
  cases leads with
  | jump operation branches => rw [successors, operation, branches]; rfl
  | test operation branches =>
      rcases operation with operation | operation <;>
        rw [successors, operation, branches] <;> rfl
  | call operation branches follower =>
      rw [successors, operation, branches, follower]; rfl
  | store operation branches follower =>
      rw [successors, operation, branches, follower]; rfl
  | finish operation => rw [successors, operation]; rfl
  | step goesOn follower => rw [successors_of_not_endsBlock goesOn, follower]; rfl
  | stop goesOn follower => rw [successors_of_not_endsBlock goesOn, follower]; rfl

end Instruction

namespace Arena

/-- Control may pass from `i` to `j`. -/
def Flows (code : Arena n) (i j : Fin n) : Prop :=
  j ∈ (code.instr i).successors

instance (code : Arena n) : DecidableRel code.Flows := fun i j =>
  inferInstanceAs (Decidable (j ∈ (code.instr i).successors))

/-- Control may get from one instruction to another. -/
abbrev Reaches (code : Arena n) : Fin n → Fin n → Prop :=
  Relation.ReflTransGen code.Flows

/-- A block that has claimed `i` goes on to `j`. -/
structure Continues (code : Arena n) (i j : Fin n) : Prop where
  goesOn : (code.instr i).opcode.endsBlock = false
  follower : (code.instr i).follower = some j
  plain : (code.instr j).isLeader = false

/-- What a block can start with, given the entry of the script. -/
inductive Opens (code : Arena n) (first : Fin n) : Fin n → Prop
  | entry : Opens code first first
  | leader {i : Fin n} : (code.instr i).isLeader = true → Opens code first i
  | exit {z i : Fin n} :
    code.Reaches first z → (code.instr z).opcode.endsBlock = true →
    code.Flows z i → Opens code first i

/-- Control may take any edge by which an instruction is left. -/
theorem flows_of_leads {code : Arena n} {i : Fin n} {edges : List (Fin n × EdgeKind)}
    (leads : (code.instr i).Leads edges) {edge : Fin n × EdgeKind}
    (listed : edge ∈ edges) : code.Flows i edge.1 := by
  rw [Flows, leads.successors_eq]
  exact List.mem_map_of_mem listed

/-- Where a block goes on, control may pass. -/
theorem Continues.flows {code : Arena n} {i j : Fin n} (continues : code.Continues i j) :
    code.Flows i j := by
  rw [Flows, Instruction.successors_of_not_endsBlock continues.goesOn,
    continues.follower]
  exact List.mem_singleton_self j

/-! ## Arenas with the same instructions -/

/-- The instructions of `arena` are those of `code`, but for the blocks that own
them. -/
def SameCode (code arena : Arena n) : Prop :=
  ∀ i, arena.instr i = { code.instr i with block := arena.owner i }

theorem SameCode.refl (code : Arena n) : SameCode code code := fun _ => rfl

theorem SameCode.newBlock {code arena : Arena n} (same : SameCode code arena)
    (address : Address) : SameCode code (arena.newBlock address) := same

theorem SameCode.addChild {code arena : Arena n} (same : SameCode code arena)
    (parent child : BlockId) (kind : EdgeKind) :
    SameCode code (arena.addChild parent child kind) := same

/-- A claim changes the owner only, so the code stays the same. -/
theorem SameCode.claim {code arena : Arena n} (same : SameCode code arena)
    (b : BlockId) (i : Fin n) : SameCode code (arena.claim b i) := by
  intro j
  rw [owner_claim, instr_claim]
  by_cases here : i = j
  · subst here
    rw [if_pos rfl, if_pos rfl, same i]
  · rw [if_neg here, if_neg here, same j]

section SameCode

variable {code arena : Arena n} (same : SameCode code arena) (i : Fin n)

include same

theorem SameCode.address : (arena.instr i).address = (code.instr i).address := by
  rw [same i]

theorem SameCode.opcode : (arena.instr i).opcode = (code.instr i).opcode := by
  rw [same i]

theorem SameCode.follower : (arena.instr i).follower = (code.instr i).follower := by
  rw [same i]

theorem SameCode.isLeader : (arena.instr i).isLeader = (code.instr i).isLeader := by
  rw [same i]
  rfl

/-- How an instruction is left does not depend on who owns it. -/
theorem SameCode.exits : (arena.instr i).exits = (code.instr i).exits := by
  rw [same i]
  rfl

end SameCode

end Arena

end ScriptFlow
