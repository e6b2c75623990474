import ScriptFlow.Graph

/-!
Construction of the block graph.

A block grows along the followers of its first instruction. It ends at an
instruction that ends a block, whose exits become edges, or in front of one that
has a block or is to start one, which becomes its only child. A block is created
when the first edge to it is recorded, and then grows at once, before any edge
that still waits.

What remains to be done is a list of tasks. Performing a task (`Task.run`) puts
its own tasks in front of the others, so the blocks, the edges and the parents
come out in the order of a depth-first walk. Every instruction is claimed once,
and a task that claims none leaves less to do than it was: that bound is
`Task.workload`, by which construction ends on any arena.
-/

namespace ScriptFlow

/-- A step of the construction that is still to be taken. -/
inductive Task (n : Nat) where
  /-- Fills a new block, from its first instruction on. -/
  | grow (block : BlockId) (start : Fin n)
  /-- Records an edge, creating the block at its end if there is none. -/
  | link (parent : BlockId) (destination : Fin n) (kind : EdgeKind)
  deriving DecidableEq, Repr

namespace Task

open EStateM (Result)

variable {n : Nat}

/-- Records an edge to the block that is to start at `destination`. If there is none
yet it is created, and the task returned fills it. -/
def connect (parent : BlockId) (destination : Fin n) (kind : EdgeKind)
    (draft : Draft n) : Result Fault (Draft n) (List (Task n)) :=
  match draft.arena.owner destination with
  | some child => .ok [] (draft.addChild parent child kind)
  | none =>
      match Draft.create (draft.arena.instr destination).address draft with
      | .error fault draft => .error fault draft
      | .ok child draft => .ok [grow child destination] (draft.addChild parent child kind)

/-- The tasks that record edges from a block. -/
def links (block : BlockId) (exits : List (Fin n × EdgeKind)) : List (Task n) :=
  exits.map fun (destination, kind) => link block destination kind

/-- Claims instructions for a block from `start` on, along the followers, until
the block ends. The tasks returned record its edges, or fill its only child. -/
def fill (block : BlockId) (start : Fin n) (draft : Draft n) :
    Result Fault (Draft n) (List (Task n)) :=
  match _ : draft.arena.owner start with
  | some owner => .ok [] (draft.addChild block owner .unconditional)
  | none =>
      let instr := draft.arena.instr start
      let claimed := draft.claim block start
      if instr.opcode.endsBlock then
        match instr.exits with
        | .error defect => .error (instr.fault defect) claimed
        | .ok exits => .ok (links block exits) claimed
      else
        match instr.follower with
        | none => .ok [] claimed
        | some next =>
            if (draft.arena.instr next).isLeader then
              connect block next .unconditional claimed
            else fill block next claimed
termination_by draft.arena.unowned
decreasing_by
  rename_i free _ _
  have fewer := Arena.unowned_claim block free
  show (draft.arena.claim block start).unowned < draft.arena.unowned
  omega

/-- A block that runs into another one is closed by an edge to it. -/
theorem fill_of_owner {block owner : BlockId} {start : Fin n} {draft : Draft n}
    (owned : draft.arena.owner start = some owner) :
    fill block start draft = .ok [] (draft.addChild block owner .unconditional) := by
  rw [fill]
  split
  next other found =>
    rw [owned] at found
    cases found
    rfl
  next free => rw [owned] at free; cases free

/-- Performs a task. The tasks returned are to be performed next. -/
def run : Task n → Draft n → Result Fault (Draft n) (List (Task n))
  | grow block start => fill block start
  | link parent destination kind => connect parent destination kind

/-! ## Construction ends -/

/-- What a task counts for among the work that remains. -/
def weight : Task n → Nat
  | grow .. => 2
  | link .. => 3

/-- The weight of several tasks. -/
def weights : List (Task n) → Nat
  | [] => 0
  | task :: rest => task.weight + weights rest

/-- A bound on the work that remains: claiming an instruction pays for the two
edges it may have, and recording an edge for the growth of a block. -/
def workload (tasks : List (Task n)) (draft : Draft n) : Nat :=
  6 * draft.arena.unowned + weights tasks

@[simp] theorem weights_append (first second : List (Task n)) :
    weights (first ++ second) = weights first + weights second := by
  induction first with
  | nil => simp [weights]
  | cons task rest ih =>
      rw [List.cons_append, weights, weights, ih, Nat.add_assoc]

/-- An edge that waits counts for three. -/
theorem weights_links (block : BlockId) (exits : List (Fin n × EdgeKind)) :
    weights (links block exits) = 3 * exits.length := by
  induction exits with
  | nil => rfl
  | cons exit rest ih =>
      have unfolded : weights (links block (exit :: rest)) =
          3 + weights (links block rest) := rfl
      rw [unfolded, ih, List.length_cons]
      omega

/-- Recording an edge leaves no more to do than the instructions without a block are worth, and a
block to fill. -/
theorem workload_connect_le {parent : BlockId} {destination : Fin n}
    {kind : EdgeKind} {draft after : Draft n} {tasks : List (Task n)}
    (connected : connect parent destination kind draft = .ok tasks after) :
    workload tasks after ≤ 6 * draft.arena.unowned + 2 := by
  unfold connect at connected
  split at connected
  · cases connected
    show 6 * draft.arena.unowned + 0 ≤ _
    omega
  · split at connected
    · cases connected
    next child created found =>
      cases connected
      have same : created.arena.unowned = draft.arena.unowned := by
        rw [(Draft.create_of_ok found).2.1, Arena.unowned_newBlock]
      show 6 * created.arena.unowned + 2 ≤ _
      omega

/-- Filling a block claims an instruction, or it meets one that has a block and records an edge
only. Either way less remains to be done. -/
theorem workload_fill_lt {block : BlockId} {start : Fin n} {draft after : Draft n}
    {tasks : List (Task n)} (filled : fill block start draft = .ok tasks after) :
    workload tasks after < 6 * draft.arena.unowned + 2 := by
  fun_induction fill block start draft with
  | case1 start draft owner free =>
      cases filled
      show 6 * draft.arena.unowned + 0 < _
      omega
  | case2 => cases filled
  | case3 start draft free instr claimed ends exits found =>
      injection filled with new reached
      subst new reached
      have fewer : claimed.arena.unowned + 1 = draft.arena.unowned :=
        Arena.unowned_claim block free
      have few := Instruction.length_exits_le found
      rw [workload, weights_links]
      omega
  | case4 start draft free instr claimed ends last =>
      injection filled with new reached
      subst new reached
      have fewer : claimed.arena.unowned + 1 = draft.arena.unowned :=
        Arena.unowned_claim block free
      show 6 * claimed.arena.unowned + 0 < _
      omega
  | case5 start draft free instr claimed ends next found leader =>
      have fewer : claimed.arena.unowned + 1 = draft.arena.unowned :=
        Arena.unowned_claim block free
      have bound := workload_connect_le filled
      omega
  | case6 start draft free instr claimed ends next found leader ih =>
      have fewer : claimed.arena.unowned + 1 = draft.arena.unowned :=
        Arena.unowned_claim block free
      have bound := ih filled
      omega

/-- Performing a task leaves less work than there was before. -/
theorem workload_run_lt {task : Task n} {draft after : Draft n}
    {tasks : List (Task n)} (ran : task.run draft = .ok tasks after) :
    workload tasks after < 6 * draft.arena.unowned + task.weight := by
  cases task with
  | grow block start => exact workload_fill_lt ran
  | link parent destination kind =>
      exact Nat.lt_succ_of_le (workload_connect_le ran)

/-- Performs tasks, and all that come of them, until none is left or one fails. -/
def drain (tasks : List (Task n)) (draft : Draft n) : Result Fault (Draft n) Unit :=
  match tasks with
  | [] => .ok () draft
  | task :: rest =>
      match _ : task.run draft with
      | .error fault after => .error fault after
      | .ok new after => drain (new ++ rest) after
termination_by workload tasks draft
decreasing_by
  rename_i ran
  have less := workload_run_lt ran
  simp only [workload, weights_append] at less ⊢
  have parts : weights (task :: rest) = task.weight + weights rest := rfl
  omega

end Task

/-! ## The graph of a sequence of instructions -/

namespace Graph

variable {n : Nat}

/-- The graph of what is reached from the first of the given instructions. None
of them may have a block yet. On failure the arena keeps the blocks made so far,
and the instructions stay with them. -/
def construct (instrs : List (Fin n)) : Action n Graph := fun arena =>
  match instrs with
  | [] => .error .emptySequence arena
  | first :: _ =>
      match instrs.find? fun i => (arena.owner i).isSome with
      | some i => .error (.alreadyOwned (arena.instr i).address) arena
      | none =>
          match Draft.create (arena.instr first).address { arena } with
          | .error fault draft => .error fault draft.arena
          | .ok entry draft =>
              match Task.drain [.grow entry first] draft with
              | .error fault draft => .error fault draft.arena
              | .ok _ draft => .ok draft.graph draft.arena

end Graph

end ScriptFlow
