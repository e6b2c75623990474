import ScriptFlow.Graph.Construction

/-!
# Construction as a recursive descent

`Graph.descend` builds the block graph without a list of tasks: a block is grown
along the followers, and where it ends its edges are recorded in order, a block
that has to be created for an edge being grown completely, with everything below
it, before the next edge is looked at.

* `Descent.drain_grow` is the simulation: a task list that starts with the growth
  of a block has the outcome of the descent from that block, followed by the rest
  of the list. It holds for every list, so for the pending edges of every block
  under construction, and a fault cuts both off at the same draft.
* `Graph.construct_eq_descend` is its consequence for whole sequences.

The recursive calls for a list of edges start from the draft that the call before
left, so the number of instructions without a block, which bounds the recursion,
has to be a part of the result (`Descent.Outcome`).
-/

namespace ScriptFlow

open EStateM (Result)

variable {n : Nat}

namespace Descent

/-! ## The descent -/

/-- The draft that a part of the descent leaves, be it complete or broken off. -/
def left : Result Fault (Draft n) Unit → Draft n
  | .ok _ draft => draft
  | .error _ draft => draft

/-- How a part of the descent ends. At most `limit` instructions are without a
block then. -/
structure Outcome (n limit : Nat) where
  result : Result Fault (Draft n) Unit
  unowned_le : (left result).arena.unowned ≤ limit

namespace Outcome

variable {limit : Nat}

/-- The part is complete. -/
def done (draft : Draft n) (bound : draft.arena.unowned ≤ limit) : Outcome n limit :=
  ⟨.ok () draft, bound⟩

/-- The part is broken off. -/
def failed (fault : Fault) (draft : Draft n) (bound : draft.arena.unowned ≤ limit) :
    Outcome n limit :=
  ⟨.error fault draft, bound⟩

/-- The same result under a weaker bound. -/
def within {small : Nat} (outcome : Outcome n small) (bound : small ≤ limit) :
    Outcome n limit :=
  ⟨outcome.result, Nat.le_trans outcome.unowned_le bound⟩

end Outcome

/-- Each claim leaves fewer instructions without a block, so that the descent comes to an end. -/
theorem unowned_claim_lt {draft : Draft n} {i : Fin n} (b : BlockId)
    (free : draft.arena.owner i = none) :
    (draft.claim b i).arena.unowned < draft.arena.unowned := by
  have fewer := Arena.unowned_claim b free
  show (draft.arena.claim b i).unowned < draft.arena.unowned
  omega

theorem unowned_created {address : Address} {draft made : Draft n} {child : BlockId}
    (created : Draft.create address draft = .ok child made) (parent : BlockId)
    (kind : EdgeKind) :
    (made.addChild parent child kind).arena.unowned = draft.arena.unowned := by
  show made.arena.unowned = draft.arena.unowned
  rw [(Draft.create_of_ok created).2.1, Arena.unowned_newBlock]

mutual

/-- Grows a block from `start` on, along the followers, and all that is below it. -/
def grow (block : BlockId) (start : Fin n) (draft : Draft n) :
    Outcome n draft.arena.unowned :=
  match free : draft.arena.owner start with
  | some owner => .done (draft.addChild block owner .unconditional) (Nat.le_refl _)
  | none =>
      have fewer := unowned_claim_lt block free
      let instr := draft.arena.instr start
      let claimed := draft.claim block start
      if instr.opcode.endsBlock then
        match instr.exits with
        | .error defect => .failed (instr.fault defect) claimed (Nat.le_of_lt fewer)
        | .ok exits => (attachEach block exits claimed).within (Nat.le_of_lt fewer)
      else
        match instr.follower with
        | none => .done claimed (Nat.le_of_lt fewer)
        | some next =>
            if (draft.arena.instr next).isLeader then
              (attach block next .unconditional claimed).within (Nat.le_of_lt fewer)
            else (grow block next claimed).within (Nat.le_of_lt fewer)
termination_by (draft.arena.unowned, 0)

/-- Records an edge. A block that is created for it is grown before anything else. -/
def attach (parent : BlockId) (destination : Fin n) (kind : EdgeKind) (draft : Draft n) :
    Outcome n draft.arena.unowned :=
  match draft.arena.owner destination with
  | some child => .done (draft.addChild parent child kind) (Nat.le_refl _)
  | none =>
      match created : Draft.create (draft.arena.instr destination).address draft with
      | .error fault after =>
          .failed fault after (Nat.le_of_eq (by rw [(Draft.create_of_error created).2]))
      | .ok child made =>
          (grow child destination (made.addChild parent child kind)).within
            (Nat.le_of_eq (unowned_created created parent kind))
termination_by (draft.arena.unowned, 1)
decreasing_by
  rw [unowned_created created parent kind]
  exact Prod.Lex.right _ Nat.one_pos

/-- Records edges, one after the other. -/
def attachEach (parent : BlockId) (exits : List (Fin n × EdgeKind)) (draft : Draft n) :
    Outcome n draft.arena.unowned :=
  match exits with
  | [] => .done draft (Nat.le_refl _)
  | (destination, kind) :: rest =>
      match attach parent destination kind draft with
      | ⟨.error fault after, bound⟩ => .failed fault after bound
      | ⟨.ok _ after, bound⟩ => (attachEach parent rest after).within bound
termination_by (draft.arena.unowned, exits.length + 1)
decreasing_by
  · exact Prod.Lex.right _ (by simp)
  · rcases Nat.lt_or_eq_of_le bound with less | same
    · exact Prod.Lex.left _ _ less
    · change after.arena.unowned = draft.arena.unowned at same
      rw [same]
      exact Prod.Lex.right _ (by simp)

end

end Descent

/-- The graph of what is reached from the first of the given instructions, by
recursive descent. None of them may have a block yet. -/
def Graph.descend (instrs : List (Fin n)) : Action n Graph := fun arena =>
  match instrs with
  | [] => .error .emptySequence arena
  | first :: _ =>
      match instrs.find? fun i => (arena.owner i).isSome with
      | some i => .error (.alreadyOwned (arena.instr i).address) arena
      | none =>
          match Draft.create (arena.instr first).address { arena } with
          | .error fault draft => .error fault draft.arena
          | .ok entry draft =>
              match (Descent.grow entry first draft).result with
              | .error fault draft => .error fault draft.arena
              | .ok _ draft => .ok draft.graph draft.arena

namespace Descent

/-! ## Equations of growth

One step of a growing block, for the task that fills it and for the descent. -/

section Growth

variable {block : BlockId} {start : Fin n} {draft : Draft n}

/-- Growth that meets an instruction with a block ends in an edge to that block. -/
theorem grow_of_owner {owner : BlockId} (owned : draft.arena.owner start = some owner) :
    (grow block start draft).result =
      .ok () (draft.addChild block owner .unconditional) := by
  rw [grow]
  split
  next other found =>
    rw [owned] at found
    cases found
    rfl
  next free => rw [owned] at free; cases free

/-- A task that fills a block claims one instruction, and goes on as its operation says. -/
theorem run_grow_of_free (block : BlockId) (free : draft.arena.owner start = none) :
    (Task.grow block start).run draft =
      if (draft.arena.instr start).opcode.endsBlock then
        match (draft.arena.instr start).exits with
        | .error defect =>
            .error ((draft.arena.instr start).fault defect) (draft.claim block start)
        | .ok exits => .ok (Task.links block exits) (draft.claim block start)
      else
        match (draft.arena.instr start).follower with
        | none => .ok [] (draft.claim block start)
        | some next =>
            if (draft.arena.instr next).isLeader then
              (Task.link block next .unconditional).run (draft.claim block start)
            else (Task.grow block next).run (draft.claim block start) := by
  rw [Task.run, Task.fill]
  split
  next owner owned => rw [free] at owned; cases owned
  next => rfl

/-- The descent does the same, and performs at once what the task leaves to be done. -/
theorem grow_of_free (free : draft.arena.owner start = none) :
    (grow block start draft).result =
      if (draft.arena.instr start).opcode.endsBlock then
        match (draft.arena.instr start).exits with
        | .error defect =>
            .error ((draft.arena.instr start).fault defect) (draft.claim block start)
        | .ok exits => (attachEach block exits (draft.claim block start)).result
      else
        match (draft.arena.instr start).follower with
        | none => .ok () (draft.claim block start)
        | some next =>
            if (draft.arena.instr next).isLeader then
              (attach block next .unconditional (draft.claim block start)).result
            else (grow block next (draft.claim block start)).result := by
  rw [grow]
  split
  next owner owned => rw [free] at owned; cases owned
  next =>
    by_cases ends : (draft.arena.instr start).opcode.endsBlock = true
    · simp only [if_pos ends]
      cases (draft.arena.instr start).exits <;> rfl
    · simp only [if_neg ends]
      cases (draft.arena.instr start).follower with
      | none => rfl
      | some next =>
          by_cases leader : (draft.arena.instr next).isLeader = true
          · simp only [if_pos leader]
            rfl
          · simp only [if_neg leader]
            rfl

end Growth

section Edges

variable {parent child : BlockId} {destination : Fin n} {kind : EdgeKind}
  {draft made : Draft n}

theorem attach_of_error {fault : Fault} (free : draft.arena.owner destination = none)
    (failed : Draft.create (draft.arena.instr destination).address draft =
      .error fault made) :
    (attach parent destination kind draft).result = .error fault made := by
  rw [attach, free]
  dsimp only
  split
  next found => rw [failed] at found; cases found; rfl
  next found => rw [failed] at found; cases found

/-- A block that is created is grown as soon as the edge to it is recorded. -/
theorem attach_of_created (free : draft.arena.owner destination = none)
    (created : Draft.create (draft.arena.instr destination).address draft =
      .ok child made) :
    (attach parent destination kind draft).result =
      (grow child destination (made.addChild parent child kind)).result := by
  rw [attach, free]
  dsimp only
  split
  next found => rw [created] at found; cases found
  next found => rw [created] at found; cases found; rfl

end Edges

/-! ## The simulation -/

/-- Goes on where a part of the descent is complete. -/
def andThen (result : Result Fault (Draft n) Unit)
    (next : Draft n → Result Fault (Draft n) Unit) : Result Fault (Draft n) Unit :=
  match result with
  | .ok _ draft => next draft
  | .error fault draft => .error fault draft

/-- What comes of a task is performed before the tasks that waited. -/
theorem drain_of_ok {task : Task n} {tasks new : List (Task n)} {draft after : Draft n}
    (ran : task.run draft = .ok new after) :
    Task.drain (task :: tasks) draft = Task.drain (new ++ tasks) after := by
  rw [Task.drain]
  split
  next failed => rw [ran] at failed; cases failed
  next found => rw [ran] at found; cases found; rfl

/-- A task that fails is the last one. -/
theorem drain_of_error {task : Task n} {tasks : List (Task n)} {draft after : Draft n}
    {fault : Fault} (ran : task.run draft = .error fault after) :
    Task.drain (task :: tasks) draft = .error fault after := by
  rw [Task.drain]
  split
  next failed => rw [ran] at failed; cases failed; rfl
  next found => rw [ran] at found; cases found

/-- Two tasks that run alike can stand for each other at the head of a list. -/
theorem drain_congr {task other : Task n} {draft middle : Draft n}
    (alike : task.run draft = other.run middle) (tasks : List (Task n)) :
    Task.drain (task :: tasks) draft = Task.drain (other :: tasks) middle := by
  cases ran : other.run middle with
  | ok new after => rw [drain_of_ok ran, drain_of_ok (alike.trans ran)]
  | error fault after => rw [drain_of_error ran, drain_of_error (alike.trans ran)]

/-- **Simulation.** Whatever tasks wait behind the growth of a block, it has the
outcome of the descent from that block, followed by them. -/
theorem drain_grow (block : BlockId) (start : Fin n) (draft : Draft n) :
    ∀ tasks, Task.drain (.grow block start :: tasks) draft =
      andThen (grow block start draft).result (Task.drain tasks) := by
  -- The induction is on the calls of the descent; links are simulated by `attach`
  -- and the links of one block by `attachEach`.
  apply grow.induct
    (fun block start draft => ∀ tasks,
      Task.drain (.grow block start :: tasks) draft =
        andThen (grow block start draft).result (Task.drain tasks))
    (fun parent destination kind draft => ∀ tasks,
      Task.drain (.link parent destination kind :: tasks) draft =
        andThen (attach parent destination kind draft).result (Task.drain tasks))
    (fun parent exits draft => ∀ tasks,
      Task.drain (Task.links parent exits ++ tasks) draft =
        andThen (attachEach parent exits draft).result (Task.drain tasks))
  case case1 =>
    intro block start draft owner owned tasks
    have ran : (Task.grow block start).run draft =
        .ok [] (draft.addChild block owner .unconditional) := Task.fill_of_owner owned
    rw [drain_of_ok ran, grow_of_owner owned]
    rfl
  case case2 =>
    intro block start draft free _ instr ends defect found tasks
    have ran := run_grow_of_free block free
    rw [if_pos ends, found] at ran
    rw [drain_of_error ran, grow_of_free free, if_pos ends, found]
    rfl
  case case3 =>
    intro block start draft free _ instr claimed ends exits found ih tasks
    have ran := run_grow_of_free block free
    rw [if_pos ends, found] at ran
    rw [drain_of_ok ran, grow_of_free free, if_pos ends, found]
    exact ih tasks
  case case4 =>
    intro block start draft free _ instr goesOn last tasks
    have ran := run_grow_of_free block free
    rw [if_neg goesOn, last] at ran
    rw [drain_of_ok ran, grow_of_free free, if_neg goesOn, last]
    rfl
  case case5 =>
    intro block start draft free _ instr claimed goesOn next found leader ih tasks
    have ran := run_grow_of_free block free
    rw [if_neg goesOn, found] at ran
    simp only [if_pos leader] at ran
    rw [drain_congr ran, grow_of_free free, if_neg goesOn, found]
    simp only [if_pos leader]
    exact ih tasks
  case case6 =>
    intro block start draft free _ instr claimed goesOn next found plain ih tasks
    have ran := run_grow_of_free block free
    rw [if_neg goesOn, found] at ran
    simp only [if_neg plain] at ran
    rw [drain_congr ran, grow_of_free free, if_neg goesOn, found]
    simp only [if_neg plain]
    exact ih tasks
  case case7 =>
    intro parent destination kind draft child owned tasks
    have ran : (Task.link parent destination kind).run draft =
        .ok [] (draft.addChild parent child kind) := by
      rw [Task.run, Task.connect, owned]
    rw [drain_of_ok ran, attach, owned]
    rfl
  case case8 =>
    intro parent destination kind draft free fault after failed tasks
    have ran : (Task.link parent destination kind).run draft = .error fault after := by
      rw [Task.run, Task.connect, free]
      simp only [failed]
    rw [drain_of_error ran, attach_of_error free failed]
    rfl
  case case9 =>
    intro parent destination kind draft free child made created ih tasks
    have ran : (Task.link parent destination kind).run draft =
        .ok [.grow child destination] (made.addChild parent child kind) := by
      rw [Task.run, Task.connect, free]
      simp only [created]
    rw [drain_of_ok ran, attach_of_created free created]
    exact ih tasks
  case case10 =>
    intro parent draft tasks
    rw [attachEach]
    rfl
  case case11 =>
    intro parent draft destination kind rest fault after bound failed ih tasks
    have first := ih (Task.links parent rest ++ tasks)
    rw [attachEach, failed]
    rw [failed] at first
    exact first
  case case12 =>
    intro parent draft destination kind rest _ after bound found ih ihRest tasks
    have first := ih (Task.links parent rest ++ tasks)
    rw [attachEach, found]
    rw [found] at first
    exact first.trans (ihRest tasks)

/-- The growth of one block, with nothing waiting behind it. -/
theorem drain_grow_alone (block : BlockId) (start : Fin n) (draft : Draft n) :
    Task.drain [.grow block start] draft = (grow block start draft).result := by
  rw [drain_grow]
  cases (grow block start draft).result with
  | ok _ after => rw [andThen, Task.drain]
  | error fault after => rw [andThen]

end Descent

/-- **Worklist construction is recursive descent.** On every arena and every
sequence of its instructions both have the same outcome: the same graph over the
same arena, or the same fault with the same arena left behind. -/
theorem Graph.construct_eq_descend (instrs : List (Fin n)) :
    Graph.construct instrs = Graph.descend instrs := by
  funext arena
  cases instrs with
  | nil => rfl
  | cons first rest =>
      unfold Graph.construct Graph.descend
      dsimp only
      cases (first :: rest).find? fun i => (arena.owner i).isSome with
      | some i => rfl
      | none =>
          cases Draft.create (arena.instr first).address { arena } with
          | error fault draft => rfl
          | ok entry draft =>
              have same := Descent.drain_grow_alone entry first draft
              cases grown : (Descent.grow entry first draft).result with
              | ok _ after =>
                  rw [grown] at same
                  simp only [same, grown]
              | error fault after =>
                  rw [grown] at same
                  simp only [same, grown]

end ScriptFlow
