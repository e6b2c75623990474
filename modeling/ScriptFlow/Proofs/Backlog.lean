import ScriptFlow.Proofs.Descent
import ScriptFlow.Proofs.Discovery

/-!
# In front of every task

Construction performs one task after the other until none is left. A `Backlog` is where it
stands in front of a task: what it has made, and the tasks that remain. `Backlog.Turn` is one
iteration, over the tasks that `Graph.construct` performs.

`Backlog.Invariant` is what holds there if no instruction had a block. At most the next task
fills a block, and that block is empty. Any other block of the graph has started where it is to
start. A task that records an edge comes from the instruction that its block ends with, and
what the block has recorded and waits for are the edges of that instruction, in order.

In front of a task a construction is at a stage of its machine, so the parts of the invariant
that hold at every stage are known. The rest is about the tasks that an iteration leaves
(`Backlog.Leaves`): the machine can also be in the middle of a block, or between the end of a
block and the only edge of it, but no iteration ends there (`Stage.Rests`).
-/

namespace ScriptFlow

open EStateM (Result)

variable {n : Nat}

/-- A construction in front of a task: what it has made, and the tasks that remain, the next
one first. -/
structure Backlog (n : Nat) where
  draft : Draft n
  pending : List (Task n)

namespace Backlog

/-- One iteration: the next task is performed, and the tasks that come of it are put in front
of the others. -/
inductive Turn : Backlog n → Backlog n → Prop
  | performs {task : Task n} {rest new : List (Task n)} {draft after : Draft n} :
    task.run draft = .ok new after → Turn ⟨draft, task :: rest⟩ ⟨after, new ++ rest⟩

/-- The next task fails, and leaves the given draft. -/
inductive Stops : Backlog n → Fault → Draft n → Prop
  | fails {task : Task n} {rest : List (Task n)} {draft after : Draft n} {fault : Fault} :
    task.run draft = .error fault after → Stops ⟨draft, task :: rest⟩ fault after

/-- Any number of iterations. -/
abbrev Turns : Backlog n → Backlog n → Prop :=
  Relation.ReflTransGen Turn

/-- The backlog at the start: an empty block at the entry is to be filled. -/
def initial (code : Arena n) (first : Fin n) : Backlog n where
  draft := (Stage.initial code first).draft
  pending := [.grow code.blocks.size first]

/-- The edges of a block that tasks are to record. -/
def waiting (pending : List (Task n)) (b : BlockId) : List (Fin n × EdgeKind) :=
  pending.filterMap fun
    | .grow .. => none
    | .link parent destination kind =>
        if parent = b then some (destination, kind) else none

/-- The block has the instruction, or is to be filled from it on. -/
def Holds (work : Backlog n) (b : BlockId) (i : Fin n) : Prop :=
  work.draft.arena.owner i = some b ∨ .grow b i ∈ work.pending

/-- A block of the graph that has nothing yet, and stands where the instruction does that it is
to start with. No block has that instruction. -/
structure Fresh (draft : Draft n) (b : BlockId) (i : Fin n) : Prop where
  member : b ∈ draft.graph.members
  instrs : (draft.arena.block b).instrs = []
  children : (draft.arena.block b).children = []
  kinds : (draft.arena.block b).kinds = []
  free : draft.arena.owner i = none
  address : (draft.arena.instr i).address = draft.arena.address b

/-- A block of the graph that has recorded some of the edges of the instruction it ends with,
and waits for the others. -/
structure Records (work : Backlog n) (p : BlockId) (z : Fin n)
    (recorded : List (Fin n × EdgeKind)) : Prop where
  member : p ∈ work.draft.graph.members
  last : (work.draft.arena.block p).instrs.getLast? = some z
  ends : (work.draft.arena.instr z).opcode.endsBlock = true
  edges : (work.draft.arena.instr z).exits = .ok (recorded ++ waiting work.pending p)
  kinds : (work.draft.arena.block p).kinds = recorded.map (·.2)
  children : List.Forall₂ (fun c edge => work.Holds c edge.1)
    (work.draft.arena.block p).children recorded

/-- What holds in front of every task of a construction over `code`. -/
structure Invariant (code : Arena n) (work : Backlog n) : Prop where
  /-- Of the tasks only the next one can fill a block. -/
  top : ∀ (place : Nat) b i, work.pending[place]? = some (.grow b i) → place = 0
  /-- That block is empty. -/
  fresh : ∀ b i, .grow b i ∈ work.pending → Fresh work.draft b i
  /-- Every other block of the graph stands where it starts. -/
  started : ∀ b ∈ work.draft.graph.members, (∀ i, .grow b i ∉ work.pending) →
    ∃ i, (work.draft.arena.block b).instrs.head? = some i ∧
      (work.draft.arena.instr i).address = work.draft.arena.address b
  /-- Instructions have been given to blocks of the graph only. -/
  owned : ∀ i b, work.draft.arena.owner i = some b → b ∈ work.draft.graph.members
  /-- A block of the graph lists what it owns, once each, and nothing else. -/
  listed : ∀ b ∈ work.draft.graph.members, ∀ i, (work.draft.arena.block b).instrs.count i =
    if work.draft.arena.owner i = some b then 1 else 0
  /-- The blocks that there were before are as they were. -/
  older : ∀ b < code.blocks.size, work.draft.arena.block b = code.block b
  /-- An edge that is to be recorded is one of those that its block waits for. -/
  waits : ∀ p d kind, .link p d kind ∈ work.pending → ∃ z recorded, work.Records p z recorded

/-! ## What an iteration leaves to be done -/

/-- The tasks that come of a task: nothing, the growth of a block that is empty, or the edges
of the instruction that a block ends with. -/
inductive Leaves (draft : Draft n) : List (Task n) → Prop
  | nothing : Leaves draft []
  | growth {b : BlockId} {i : Fin n} :
    (draft.arena.block b).instrs = [] → Leaves draft [.grow b i]
  | edges {b : BlockId} {z : Fin n} {exits : List (Fin n × EdgeKind)} :
    (draft.arena.block b).instrs.getLast? = some z →
    (draft.arena.instr z).opcode.endsBlock = true →
    (draft.arena.instr z).exits = .ok exits → Leaves draft (Task.links b exits)

section Leaves

variable {draft after : Draft n} {new : List (Task n)} {b p : BlockId} {i d : Fin n}
  {kind : EdgeKind}

/-- Recording an edge leaves nothing to be done, or a new block to be filled. -/
theorem leaves_of_connect (connected : Task.connect p d kind draft = .ok new after) :
    Leaves after new := by
  unfold Task.connect at connected
  split at connected
  next => cases connected; exact .nothing
  next free =>
    split at connected
    next => cases connected
    next c made created =>
      cases connected
      refine .growth ?_
      rw [Draft.arena_addChild, Arena.instrs_addChild, Stage.block_created created]

/-- Filling a block leaves the edges of its last instruction, or those of the edge into which it
ran. -/
theorem leaves_of_fill (bound : b < draft.arena.blocks.size)
    (filled : Task.fill b i draft = .ok new after) : Leaves after new := by
  fun_induction Task.fill b i draft with
  | case1 => cases filled; exact .nothing
  | case2 => cases filled
  | case3 i draft free instr claimed ends exits found =>
      injection filled with issued reached
      subst issued reached
      have same := (Arena.SameCode.refl draft.arena).claim b i
      refine .edges (z := i) ?_ ?_ ?_
      · rw [Stage.instrs_claim_self bound, List.getLast?_concat]
      · exact (congrArg Opcode.endsBlock (same.opcode i)).trans ends
      · exact (same.exits i).trans found
  | case4 =>
      injection filled with issued
      subst issued
      exact .nothing
  | case5 => exact leaves_of_connect filled
  | case6 i draft free instr claimed goesOn next found plain ih =>
      refine ih ?_ filled
      show b < (draft.arena.claim b i).blocks.size
      rw [Arena.size_claim]
      exact bound

theorem leaves_of_run {task : Task n}
    (stored : ∀ b i, task = .grow b i → b < draft.arena.blocks.size)
    (ran : task.run draft = .ok new after) : Leaves after new := by
  cases task with
  | grow b i => exact leaves_of_fill (stored b i rfl) ran
  | link p d kind => exact leaves_of_connect ran

/-- A block that is to be filled is empty. -/
theorem Leaves.empty (leaves : Leaves draft new) (grows : .grow b i ∈ new) :
    (draft.arena.block b).instrs = [] := by
  cases leaves with
  | nothing => cases grows
  | growth empty => cases List.mem_singleton.mp grows; exact empty
  | edges => simp [Task.links] at grows

theorem Leaves.ended (leaves : Leaves draft new) (links : .link p d kind ∈ new) :
    ∃ z, (draft.arena.block p).instrs.getLast? = some z ∧
      (draft.arena.instr z).opcode.endsBlock = true := by
  cases leaves with
  | nothing => cases links
  | growth => cases List.mem_singleton.mp links
  | @edges b z exits last ends found =>
      obtain ⟨edge, -, ⟨⟩⟩ := List.mem_map.mp links
      exact ⟨z, last, ends⟩

end Leaves

end Backlog

/-! ## Stages in front of a task -/

namespace Stage

variable {code : Arena n} {first : Fin n} {stage next : Stage n} {base : Nat} {b c p : BlockId}
  {i d z : Fin n} {kind : EdgeKind} {links : List (Link n)}
  {growing : Option (BlockId × Fin n)}

/-- The edges for which a block waits are those of its tasks. -/
theorem waiting_pending (growing : Option (BlockId × Fin n)) (links : List (Link n))
    (b : BlockId) :
    Backlog.waiting (pending growing links) b = waiting links b := by
  have idle : Backlog.waiting (pending none links) b = waiting links b := by
    induction links with
    | nil => rfl
    | cons link links ih =>
        obtain ⟨p, d, kind⟩ := link
        show Backlog.waiting (.link p d kind :: pending none links) b = _
        rw [Backlog.waiting, List.filterMap_cons, ← Backlog.waiting, ih]
        dsimp only
        by_cases same : p = b
        · subst same
          rw [waiting_cons_self, if_pos rfl]
        · rw [waiting_cons_of_ne same, if_neg same]
  rcases growing with _ | ⟨c, j⟩ <;> exact idle

/-- The stage is one in front of a task: a block that grows is still empty, and a block for
which edges wait has claimed the instruction that ends it. -/
structure Rests (code : Arena n) (stage : Stage n) : Prop where
  empty : ∀ b i, stage.growing = some (b, i) → (stage.draft.arena.block b).instrs = []
  ended : ∀ p d kind, ⟨p, d, kind⟩ ∈ stage.links →
    ∃ z, (stage.draft.arena.block p).instrs.getLast? = some z ∧
      (code.instr z).opcode.endsBlock = true

theorem Rests.initial : Rests code (initial code first) := by
  refine ⟨?_, nofun⟩
  intro b i grows
  cases grows
  rw [block_initial]

/-- As long as edges wait for it, a block ends with the instruction that they are of. -/
theorem last_of_ended (sound : Sound code first stage) (later : Sound code first next)
    (steps : Steps code stage next) (before : ⟨p, d, kind⟩ ∈ stage.links)
    (still : ⟨p, d, kind⟩ ∈ next.links)
    (last : (stage.draft.arena.block p).instrs.getLast? = some z)
    (ends : (code.instr z).opcode.endsBlock = true) :
    (next.draft.arena.block p).instrs.getLast? = some z := by
  have member := (sound.agenda.links _ before).1
  rw [← body_of_idle (sound.edges.idle before)] at last
  rw [← body_of_idle (later.edges.idle still),
    body_of_ended sound.membership steps member last ends, last]

section Turns

variable (free : ∀ i, code.Reaches first i → code.owner i = none)

include free

/-- Performing the first task of a stage in front of a task leads to another one. -/
theorem Rests.run {task : Task n} {rest new : List (Task n)} {after : Draft n}
    (rests : stage.Rests code) (steps : Steps code (Stage.initial code first) stage)
    (waits : stage.tasks = task :: rest) (ran : task.run stage.draft = .ok new after) :
    ∃ next, Steps code stage next ∧ next.draft = after ∧ next.tasks = new ++ rest ∧
      next.Rests code := by
  have sound := sound_of_steps free steps
  have ready := (ready_initial (free first .refl)).steps steps
  obtain ⟨next, more, rfl, left⟩ := steps_of_run ready waits ran
  have leaves : Backlog.Leaves next.draft new := by
    refine Backlog.leaves_of_run ?_ ran
    rintro b i rfl
    have grows : stage.growing = some (b, i) :=
      grow_mem_pending.mp (waits ▸ List.mem_cons_self)
    exact sound.membership.lt_size b (sound.agenda.growing b i grows).1
  refine ⟨next, more, rfl, left, ?_, ?_⟩
  · intro b i grows
    have issued : .grow b i ∈ new ++ rest := left ▸ grow_mem_pending.mpr grows
    exact leaves.empty ((List.mem_append.mp issued).resolve_right (grow_not_mem_rest waits))
  · intro p d kind listed
    have issued : .link p d kind ∈ new ++ rest := left ▸ link_mem_pending.mpr listed
    rcases List.mem_append.mp issued with fresh | old
    · obtain ⟨z, last, ends⟩ := leaves.ended fresh
      exact ⟨z, last, (ready.steps more).same.opcode z ▸ ends⟩
    · have before : ⟨p, d, kind⟩ ∈ stage.links :=
        link_mem_pending.mp (waits ▸ List.mem_cons_of_mem task old)
      obtain ⟨z, last, ends⟩ := rests.ended p d kind before
      have later := sound_of_steps free (steps.trans more)
      exact ⟨z, last_of_ended sound later more before listed last ends, ends⟩

/-- In front of every task a construction is at such a stage. -/
theorem rests_of_turns {work : Backlog n} (turns : Backlog.Turns (.initial code first) work) :
    ∃ stage, Steps code (Stage.initial code first) stage ∧ stage.draft = work.draft ∧
      stage.tasks = work.pending ∧ stage.Rests code := by
  induction turns with
  | refl => exact ⟨_, .refl, rfl, rfl, .initial⟩
  | tail _ turn ih =>
      obtain ⟨stage, steps, made, waits, rests⟩ := ih
      cases turn with
      | @performs task rest new draft after ran =>
          change stage.draft = draft at made
          subst made
          obtain ⟨next, more, reached, left, rests⟩ := rests.run free steps waits ran
          exact ⟨next, steps.trans more, reached, left, rests⟩

end Turns

section Invariant

/-- A block has an instruction in a stage in front of a task, or is to be filled from it on. -/
theorem holds_of_mem_body (ownership : Ownership code first stage.draft)
    (member : b ∈ stage.draft.graph.members) (listed : i ∈ stage.body b) :
    Backlog.Holds ⟨stage.draft, stage.tasks⟩ b i := by
  rcases mem_body.mp listed with claimed | growing
  · exact .inl (ownership.listed b member i claimed).1
  · exact .inr (grow_mem_pending.mpr growing)

/-- Where nothing had a block, what a block owns is what the construction has given to it. -/
theorem mem_of_owner (ownership : Ownership code first stage.draft)
    (unowned : ∀ i, code.owner i = none) (owner : stage.draft.arena.owner i = some b) :
    b ∈ stage.draft.graph.members ∧ i ∈ (stage.draft.arena.block b).instrs := by
  by_cases reached : code.Reaches first i
  · exact ownership.owned i b reached owner
  · rw [ownership.elsewhere i reached, unowned i] at owner
    cases owner

variable (rests : stage.Rests code)

include rests

/-- In front of a task a block that grows has nothing yet. -/
theorem Rests.fresh (sound : Sound code first stage) (ready : stage.Ready code)
    (grows : stage.growing = some (b, i)) : Backlog.Fresh stage.draft b i := by
  have member := (sound.agenda.growing b i grows).1
  have empty := rests.empty b i grows
  obtain ⟨children, kinds, -⟩ := sound.edges.growing b i grows
  obtain ⟨j, head, address, -⟩ := sound.runs.starts b member
  rw [body_of_growing grows, empty] at head
  cases head
  exact
    { member, instrs := empty, children, kinds
      free := ready.free b i grows
      address := (ready.same.address i).trans address }

/-- In front of a task a block for which edges wait has ended, and has recorded those before
them. -/
theorem Rests.records (sound : Sound code first stage) (ready : stage.Ready code)
    (listed : ⟨p, d, kind⟩ ∈ stage.links) :
    ∃ z recorded, Backlog.Records ⟨stage.draft, stage.tasks⟩ p z recorded := by
  have member := (sound.agenda.links _ listed).1
  obtain ⟨z, recorded, progress⟩ := sound.edges.closed p member (sound.edges.idle listed)
  obtain ⟨y, last, ends⟩ := rests.ended p d kind listed
  obtain rfl : z = y := Option.some.inj (progress.ends.symm.trans last)
  have edges : (code.instr z).exits = .ok (recorded ++ Backlog.waiting stage.tasks p) := by
    rw [Stage.tasks, waiting_pending]
    exact progress.leads.exits
  refine ⟨z, recorded, ?_⟩
  exact
    { member, last
      ends := (congrArg Opcode.endsBlock (ready.same.opcode z)).trans ends
      edges := (ready.same.exits z).trans edges
      kinds := progress.kinds
      children := progress.children.imp fun c edge leads =>
        holds_of_mem_body sound.ownership leads.1 leads.2 }

/-- What the invariant asks for holds at a stage in front of a task. -/
theorem Rests.invariant (unowned : ∀ i, code.owner i = none)
    (steps : Steps code (Stage.initial code first) stage) :
    Backlog.Invariant code ⟨stage.draft, stage.tasks⟩ := by
  have free : ∀ i, code.Reaches first i → code.owner i = none := fun i _ => unowned i
  have ready := (ready_initial (unowned first)).steps steps
  have sound := sound_of_steps free steps
  have given := fun i b => mem_of_owner (i := i) (b := b) sound.ownership unowned
  constructor
  case top => exact fun place b i => place_of_grow
  case fresh => exact fun b i grows => rests.fresh sound ready (grow_mem_pending.mp grows)
  case started =>
    intro b member idle
    have body : stage.body b = (stage.draft.arena.block b).instrs :=
      body_of_idle fun i growing => idle i (grow_mem_pending.mpr growing)
    obtain ⟨i, head, address, -⟩ := sound.runs.starts b member
    exact ⟨i, body ▸ head, (ready.same.address i).trans address⟩
  case owned => exact fun i b owner => (given i b owner).1
  case listed =>
    intro b member i
    split
    next owner =>
      exact List.count_eq_one_of_mem (sound.ownership.once b member) (given i b owner).2
    next other =>
      refine List.count_eq_zero.mpr fun listed => other ?_
      exact (sound.ownership.listed b member i listed).1
  case older => exact fun b old => block_of_steps free steps old
  case waits => exact fun p d kind waits => rests.records sound ready (link_mem_pending.mp waits)

end Invariant

end Stage

/-! ## Iterations are those of the loop -/

namespace Backlog

variable {work next : Backlog n} {tasks : List (Task n)} {draft after : Draft n} {fault : Fault}

theorem drain_of_turns (turns : Turns work next) :
    Task.drain work.pending work.draft = Task.drain next.pending next.draft := by
  induction turns with
  | refl => rfl
  | tail _ turn ih =>
      cases turn with
      | performs ran => exact ih.trans (Descent.drain_of_ok ran)

theorem drain_of_stops (stops : work.Stops fault after) :
    Task.drain work.pending work.draft = .error fault after := by
  cases stops with
  | fails ran => exact Descent.drain_of_error ran

theorem turns_of_drain (drained : Task.drain tasks draft = .ok () after) :
    Turns ⟨draft, tasks⟩ ⟨after, []⟩ := by
  fun_induction Task.drain tasks draft with
  | case1 draft => cases drained; exact .refl
  | case2 => cases drained
  | case3 draft task rest new middle ran ih => exact .head (.performs ran) (ih drained)

theorem stops_of_drain (failed : Task.drain tasks draft = .error fault after) :
    ∃ work, Turns ⟨draft, tasks⟩ work ∧ work.Stops fault after := by
  fun_induction Task.drain tasks draft with
  | case1 => cases failed
  | case2 draft task rest other middle ran => cases failed; exact ⟨_, .refl, .fails ran⟩
  | case3 draft task rest new middle ran ih =>
      obtain ⟨work, turns, stops⟩ := ih failed
      exact ⟨work, .head (.performs ran) turns, stops⟩

/-- The loop ends well just if iterations lead to where no task is left. -/
theorem drain_eq_ok_iff : Task.drain tasks draft = .ok () after ↔
    Turns ⟨draft, tasks⟩ ⟨after, []⟩ := by
  refine ⟨turns_of_drain, fun turns => ?_⟩
  exact (drain_of_turns turns).trans (Task.drain.eq_1 after)

/-- The loop fails just if iterations lead to a task that fails. -/
theorem drain_eq_error_iff : Task.drain tasks draft = .error fault after ↔
    ∃ work, Turns ⟨draft, tasks⟩ work ∧ work.Stops fault after := by
  refine ⟨stops_of_drain, ?_⟩
  rintro ⟨work, turns, stops⟩
  exact (drain_of_turns turns).trans (drain_of_stops stops)

end Backlog

namespace Graph

variable {code after : Arena n} {first : Fin n} {rest : List (Fin n)}
  (free : ∀ i ∈ first :: rest, code.owner i = none)

include free

/-- A graph that is constructed is what has been made when no task is left. -/
theorem construct_eq_ok_iff {graph : Graph} :
    construct (first :: rest) code = .ok graph after ↔
      Backlog.Turns (.initial code first) ⟨⟨after, graph⟩, []⟩ := by
  rw [construct_eq_drain free]
  constructor
  · intro constructed
    split at constructed
    next => cases constructed
    next draft drained =>
      cases constructed
      exact Backlog.drain_eq_ok_iff.mp drained
  · intro turns
    have drained : Task.drain (Stage.initial code first).tasks (Stage.initial code first).draft =
        .ok () ⟨after, graph⟩ := Backlog.drain_eq_ok_iff.mpr turns
    rw [drained]

/-- A construction that fails is broken off at a task. -/
theorem construct_eq_error_iff {fault : Fault} :
    construct (first :: rest) code = .error fault after ↔
      ∃ work draft, Backlog.Turns (.initial code first) work ∧ work.Stops fault draft ∧
        draft.arena = after := by
  rw [construct_eq_drain free]
  constructor
  · intro failed
    split at failed
    next draft drained =>
      cases failed
      obtain ⟨work, turns, stops⟩ := Backlog.drain_eq_error_iff.mp drained
      exact ⟨work, draft, turns, stops, rfl⟩
    next => cases failed
  · rintro ⟨work, draft, turns, stops, rfl⟩
    have drained : Task.drain (Stage.initial code first).tasks (Stage.initial code first).draft =
        .error fault draft := Backlog.drain_eq_error_iff.mpr ⟨work, turns, stops⟩
    rw [drained]

end Graph

/-- **Loop invariant.** Where no instruction has a block, the invariant holds in front of every
task of a construction: in front of those that it performs until none is left, if there is a
graph, and up to the one that fails, if there is none. -/
theorem Graph.construct_invariant {code : Arena n} (first : Fin n) (rest : List (Fin n))
    (unowned : ∀ i, code.owner i = none) :
    (∀ work, Backlog.Turns (.initial code first) work → work.Invariant code) ∧
    (∀ graph after, construct (first :: rest) code = .ok graph after ↔
      Backlog.Turns (.initial code first) ⟨⟨after, graph⟩, []⟩) ∧
    ∀ fault after, construct (first :: rest) code = .error fault after ↔
      ∃ work draft, Backlog.Turns (.initial code first) work ∧ work.Stops fault draft ∧
        draft.arena = after := by
  have free : ∀ i ∈ first :: rest, code.owner i = none := fun i _ => unowned i
  refine ⟨?_, fun _ _ => construct_eq_ok_iff free, fun _ _ => construct_eq_error_iff free⟩
  intro work turns
  obtain ⟨stage, steps, made, waits, rests⟩ :=
    Stage.rests_of_turns (fun i _ => unowned i) turns
  have invariant := rests.invariant unowned steps
  rw [made, waits] at invariant
  exact invariant

/-- In front of the third task the block after the jump is to be filled, and the test that the
first block ends with has one edge recorded and the other one to be recorded. -/
theorem Graph.construct_invariant_revisiting :
    (∀ i, Arena.revisiting.owner i = none) ∧
      ∃ work, Backlog.Turns (.initial Arena.revisiting 0) work ∧
        work.pending = [.grow 1 4, .link 0 2 .conditionalFalse] ∧
        (work.draft.arena.block 0).children = [1] ∧
        work.Invariant Arena.revisiting := by
  have unowned : ∀ i, Arena.revisiting.owner i = none := by decide
  have runs : (match Task.run (.grow 0 0) (Stage.initial Arena.revisiting 0).draft with
      | .error .. => false
      | .ok links filled =>
          match Task.run (.link 0 4 .conditionalTrue) filled with
          | .error .. => false
          | .ok grown connected =>
              decide (links = [.link 0 4 .conditionalTrue, .link 0 2 .conditionalFalse] ∧
                grown = [.grow 1 4] ∧ (connected.arena.block 0).children = [1])) = true := by
    decide +kernel
  refine ⟨unowned, ?_⟩
  cases first : Task.run (.grow 0 0) (Stage.initial Arena.revisiting 0).draft with
  | error fault draft => simp [first] at runs
  | ok links filled =>
      simp only [first] at runs
      cases second : Task.run (.link 0 4 .conditionalTrue) filled with
      | error fault draft => simp [second] at runs
      | ok grown connected =>
          simp only [second, decide_eq_true_eq] at runs
          obtain ⟨rfl, rfl, children⟩ := runs
          have turns : Backlog.Turns (.initial Arena.revisiting 0)
              ⟨connected, [.grow 1 4, .link 0 2 .conditionalFalse]⟩ :=
            .tail (.single (.performs first)) (.performs second)
          have invariant := (construct_invariant 0 [1, 2, 3, 4, 5, 6, 7] unowned).1 _ turns
          exact ⟨_, turns, rfl, children, invariant⟩

end ScriptFlow
