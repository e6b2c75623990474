import ScriptFlow.Graph.Construction
import ScriptFlow.Proofs.Flow

/-!
# Construction as a state machine

Between two edits of the arena a construction is at a `Stage`: a draft, at most one
block that grows, with the instruction it claims next, and the edges that are still
to be recorded. `Stage.Step` lists the four ways in which it moves on, over the code
of the arena it started from:

* `extend`: the growing block claims an instruction and goes on to its follower;
* `close`: it claims its last instruction, whose edges are to be recorded;
* `reuse`: an edge to an instruction with a block is recorded;
* `create`: an edge is recorded to a new block, which grows next.

`Stage.steps_of_drain` and `Stage.fails_of_drain` say that performing the tasks of a
stage is a run of this machine, to the end or to one of the two failures. What
construction preserves is therefore shown for the four steps only.
-/

namespace ScriptFlow

open EStateM (Result)

variable {n : Nat}

/-- An edge that is still to be recorded. -/
structure Link (n : Nat) where
  parent : BlockId
  destination : Fin n
  kind : EdgeKind

/-- The edges of one block. -/
def Link.ofEdges (parent : BlockId) (edges : List (Fin n × EdgeKind)) : List (Link n) :=
  edges.map fun edge => ⟨parent, edge.1, edge.2⟩

/-- A construction between two edits of its arena. -/
structure Stage (n : Nat) where
  draft : Draft n
  /-- The block that grows, and the instruction it claims next. -/
  growing : Option (BlockId × Fin n)
  /-- The edges to be recorded, the next one first. -/
  links : List (Link n)

namespace Stage

/-- The tasks for a growing block and for edges. -/
def pending (growing : Option (BlockId × Fin n)) (links : List (Link n)) :
    List (Task n) :=
  (growing.toList.map fun (block, start) => .grow block start) ++
    links.map fun link => .link link.parent link.destination link.kind

/-- The tasks that are left to be performed at a stage. -/
def tasks (stage : Stage n) : List (Task n) :=
  pending stage.growing stage.links

/-- One edit of the arena, over instructions `code`. -/
inductive Step (code : Arena n) : Stage n → Stage n → Prop
  | extend {draft : Draft n} {b : BlockId} {i next : Fin n} {links : List (Link n)} :
    draft.arena.owner i = none → code.Continues i next →
    (draft.claim b i).arena.owner next = none →
    Step code ⟨draft, some (b, i), links⟩ ⟨draft.claim b i, some (b, next), links⟩
  | close {draft : Draft n} {b : BlockId} {i : Fin n} {links : List (Link n)}
      {edges : List (Fin n × EdgeKind)} :
    draft.arena.owner i = none → (code.instr i).Leads edges →
    ((code.instr i).opcode.endsBlock = true ∨
      ∀ edge ∈ edges, (code.instr edge.1).isLeader = true ∨
        (draft.claim b i).arena.owner edge.1 ≠ none) →
    Step code ⟨draft, some (b, i), links⟩
      ⟨draft.claim b i, none, Link.ofEdges b edges ++ links⟩
  | reuse {draft : Draft n} {p c : BlockId} {d : Fin n} {kind : EdgeKind}
      {links : List (Link n)} :
    draft.arena.owner d = some c →
    Step code ⟨draft, none, ⟨p, d, kind⟩ :: links⟩ ⟨draft.addChild p c kind, none, links⟩
  | create {draft made : Draft n} {p c : BlockId} {d : Fin n} {kind : EdgeKind}
      {links : List (Link n)} :
    draft.arena.owner d = none →
    Draft.create (code.instr d).address draft = .ok c made →
    Step code ⟨draft, none, ⟨p, d, kind⟩ :: links⟩
      ⟨made.addChild p c kind, some (c, d), links⟩

/-- Any number of edits. -/
abbrev Steps (code : Arena n) : Stage n → Stage n → Prop :=
  Relation.ReflTransGen (Step code)

/-- The next edit fails, and leaves the given draft. -/
inductive Fails (code : Arena n) : Stage n → Fault → Draft n → Prop
  | malformed {draft : Draft n} {b : BlockId} {i : Fin n} {links : List (Link n)}
      {defect : Defect} :
    draft.arena.owner i = none → (code.instr i).exits = .error defect →
    Fails code ⟨draft, some (b, i), links⟩ ((code.instr i).fault defect)
      (draft.claim b i)
  | collision {draft made : Draft n} {p : BlockId} {d : Fin n} {kind : EdgeKind}
      {links : List (Link n)} {fault : Fault} :
    draft.arena.owner d = none →
    Draft.create (code.instr d).address draft = .error fault made →
    Fails code ⟨draft, none, ⟨p, d, kind⟩ :: links⟩ fault made

/-- The arena of a stage holds the instructions `code`, and the growing block may
claim the next one. -/
structure Ready (code : Arena n) (stage : Stage n) : Prop where
  same : code.SameCode stage.draft.arena
  free : ∀ b i, stage.growing = some (b, i) → stage.draft.arena.owner i = none

variable {code : Arena n}

theorem pending_append (growing : Option (BlockId × Fin n)) (links more : List (Link n)) :
    pending growing (links ++ more) = pending growing links ++ pending none more := by
  simp [pending]

theorem pending_ofEdges (b : BlockId) (edges : List (Fin n × EdgeKind)) :
    pending none (Link.ofEdges b edges) = Task.links b edges := by
  simp [pending, Link.ofEdges, Task.links]

section Pending

variable {growing : Option (BlockId × Fin n)} {links : List (Link n)} {b p : BlockId}
  {i d : Fin n} {kind : EdgeKind}

theorem grow_not_mem_pending : .grow b i ∉ pending none links := by
  simp [pending]

/-- A block is to be filled just if it grows. -/
theorem grow_mem_pending : .grow b i ∈ pending growing links ↔ growing = some (b, i) := by
  constructor
  · intro grows
    rcases growing with _ | ⟨c, j⟩
    · exact (grow_not_mem_pending grows).elim
    · rcases List.mem_cons.mp grows with same | later
      · cases same
        rfl
      · exact (grow_not_mem_pending later).elim
  · rintro rfl
    exact List.mem_cons_self

/-- An edge is to be recorded just if it waits. -/
theorem link_mem_pending : .link p d kind ∈ pending growing links ↔ ⟨p, d, kind⟩ ∈ links := by
  rw [pending, List.mem_append]
  constructor
  · rintro (grows | waits)
    · cases growing <;> simp at grows
    · obtain ⟨link, listed, ⟨⟩⟩ := List.mem_map.mp waits
      exact listed
  · intro listed
    exact .inr (List.mem_map_of_mem listed)

/-- Only the first task of a stage can fill a block. -/
theorem grow_not_mem_rest {task : Task n} {rest : List (Task n)}
    (waits : pending growing links = task :: rest) : .grow b i ∉ rest := by
  intro grows
  rcases growing with _ | ⟨c, j⟩
  · exact grow_not_mem_pending (waits ▸ List.mem_cons_of_mem task grows)
  · cases waits
    exact grow_not_mem_pending grows

theorem place_of_grow {place : Nat} (grows : (pending growing links)[place]? = some (.grow b i)) :
    place = 0 := by
  cases waits : pending growing links with
  | nil =>
      rw [waits] at grows
      cases grows
  | cons task rest =>
      rw [waits] at grows
      cases place with
      | zero => rfl
      | succ place => exact (grow_not_mem_rest waits (List.mem_of_getElem? grows)).elim

end Pending

/-- Every edit leaves the code as it is, and the next instruction without an owner. -/
theorem Ready.step {stage next : Stage n} (ready : stage.Ready code)
    (step : Step code stage next) : next.Ready code := by
  cases step with
  | @extend draft b i next links free continues open_ =>
      refine ⟨ready.same.claim b i, ?_⟩
      intro c j grows
      cases grows
      exact open_
  | @close draft b i links edges free leads waits =>
      exact ⟨ready.same.claim b i, nofun⟩
  | @reuse draft p c d kind links owned =>
      exact ⟨ready.same.addChild p c kind, nofun⟩
  | @create draft made p c d kind links free created =>
      obtain ⟨-, arena, -⟩ := Draft.create_of_ok created
      have same : code.SameCode made.arena := by
        rw [arena]
        exact ready.same.newBlock _
      refine ⟨same.addChild p c kind, ?_⟩
      intro b i grows
      cases grows
      show made.arena.owner d = none
      rw [arena, Arena.owner_newBlock]
      exact free

theorem Ready.steps {stage next : Stage n} (ready : stage.Ready code)
    (steps : Steps code stage next) : next.Ready code := by
  induction steps with
  | refl => exact ready
  | tail _ step ih => exact ih.step step

/-! ## Tasks are runs of the machine -/

/-- Recording an edge is one step. -/
theorem step_of_connect {p : BlockId} {d : Fin n} {kind : EdgeKind}
    {draft after : Draft n} {new : List (Task n)} (same : code.SameCode draft.arena)
    (connected : Task.connect p d kind draft = .ok new after) (links : List (Link n)) :
    ∃ growing, Step code ⟨draft, none, ⟨p, d, kind⟩ :: links⟩ ⟨after, growing, links⟩ ∧
      new = pending growing [] := by
  unfold Task.connect at connected
  split at connected
  next child owned =>
    cases connected
    exact ⟨none, .reuse owned, rfl⟩
  next free =>
    rw [same.address] at connected
    split at connected
    next => cases connected
    next child made created =>
      cases connected
      exact ⟨some (child, d), .create free created, rfl⟩

/-- An edge that cannot be recorded leads to an address that has a block. -/
theorem fails_of_connect {p : BlockId} {d : Fin n} {kind : EdgeKind}
    {draft after : Draft n} {fault : Fault} (same : code.SameCode draft.arena)
    (failed : Task.connect p d kind draft = .error fault after) (links : List (Link n)) :
    Fails code ⟨draft, none, ⟨p, d, kind⟩ :: links⟩ fault after := by
  unfold Task.connect at failed
  split at failed
  next => cases failed
  next free =>
    rw [same.address] at failed
    split at failed
    next collision =>
      cases failed
      exact .collision free collision
    next => cases failed

/-- A block whose last instruction has a follower that starts a block, or belongs to
one, is closed. -/
theorem close_of_follower {draft : Draft n} {b : BlockId} {i next : Fin n}
    (free : draft.arena.owner i = none)
    (goesOn : (code.instr i).opcode.endsBlock = false)
    (follower : (code.instr i).follower = some next)
    (taken : (code.instr next).isLeader = true ∨ (draft.claim b i).arena.owner next ≠ none)
    (links : List (Link n)) :
    Step code ⟨draft, some (b, i), links⟩
      ⟨draft.claim b i, none, ⟨b, next, .unconditional⟩ :: links⟩ := by
  have leads : (code.instr i).Leads [(next, .unconditional)] := .step goesOn follower
  refine Step.close free leads (.inr ?_)
  intro edge listed
  rw [List.mem_singleton.mp listed]
  exact taken

/-- Filling a block is a run of the machine: it claims instructions until the block
is closed, and records the edge to an only child at once. -/
theorem steps_of_fill {b : BlockId} {start : Fin n} {draft after : Draft n}
    {new : List (Task n)} (same : code.SameCode draft.arena)
    (free : draft.arena.owner start = none)
    (filled : Task.fill b start draft = .ok new after) (links : List (Link n)) :
    ∃ growing more,
      Steps code ⟨draft, some (b, start), links⟩ ⟨after, growing, more ++ links⟩ ∧
        new = pending growing more := by
  fun_induction Task.fill b start draft with
  | case1 start draft owner owned => rw [owned] at free; cases free
  | case2 => cases filled
  | case3 start draft free' instr claimed ends exits found =>
      injection filled with created reached
      subst created reached
      rw [same.exits] at found
      rw [same.opcode] at ends
      refine ⟨none, Link.ofEdges b exits, .single ?_, (pending_ofEdges b exits).symm⟩
      exact .close free (.of_exits found) (.inl ends)
  | case4 start draft free' instr claimed goesOn last =>
      injection filled with created reached
      subst created reached
      rw [same.opcode, Bool.not_eq_true] at goesOn
      rw [same.follower] at last
      refine ⟨none, [], .single ?_, rfl⟩
      have leads : (code.instr start).Leads [] := .stop goesOn last
      exact Step.close free leads (.inr (by simp))
  | case5 start draft free' instr claimed goesOn next found leader =>
      rw [same.opcode, Bool.not_eq_true] at goesOn
      rw [same.follower] at found
      rw [same.isLeader] at leader
      have closed := close_of_follower (b := b) free goesOn found (.inl leader) links
      obtain ⟨growing, connected, created⟩ :=
        step_of_connect (same.claim b start) filled links
      exact ⟨growing, [], .head closed (.single connected), created⟩
  | case6 start draft free' instr claimed goesOn next found plain ih =>
      rw [same.opcode, Bool.not_eq_true] at goesOn
      rw [same.follower] at found
      rw [same.isLeader, Bool.not_eq_true] at plain
      cases owned : claimed.arena.owner next with
      | some owner =>
          have closed := close_of_follower (b := b) free goesOn found
            (.inr (Option.ne_none_iff_exists'.mpr ⟨owner, owned⟩)) links
          have joined : Task.connect b next .unconditional claimed = .ok new after := by
            rw [Task.connect, owned, ← filled, Task.fill_of_owner owned]
          obtain ⟨growing, connected, created⟩ :=
            step_of_connect (same.claim b start) joined links
          exact ⟨growing, [], .head closed (.single connected), created⟩
      | none =>
          obtain ⟨growing, more, steps, created⟩ := ih (same.claim b start) owned filled
          have extended : Step code ⟨draft, some (b, start), links⟩
              ⟨claimed, some (b, next), links⟩ :=
            .extend free ⟨goesOn, found, plain⟩ owned
          exact ⟨growing, more, .head extended steps, created⟩

/-- Growth that fails does so at an instruction that is not well formed, or at the only edge of a
block. -/
theorem fails_of_fill {b : BlockId} {start : Fin n} {draft after : Draft n}
    {fault : Fault} (same : code.SameCode draft.arena)
    (free : draft.arena.owner start = none)
    (failed : Task.fill b start draft = .error fault after) (links : List (Link n)) :
    ∃ stage, Steps code ⟨draft, some (b, start), links⟩ stage ∧
      Fails code stage fault after := by
  fun_induction Task.fill b start draft with
  | case1 => cases failed
  | case2 start draft free' instr claimed ends defect found =>
      injection failed with reported reached
      subst reported reached
      have fault : instr.fault defect = (code.instr start).fault defect := by
        show (draft.arena.instr start).fault defect = _
        rw [Instruction.fault, same.address, same.opcode, Instruction.fault]
      rw [same.exits] at found
      rw [fault]
      exact ⟨_, .refl, .malformed free found⟩
  | case3 => cases failed
  | case4 => cases failed
  | case5 start draft free' instr claimed goesOn next found leader =>
      rw [same.opcode, Bool.not_eq_true] at goesOn
      rw [same.follower] at found
      rw [same.isLeader] at leader
      have closed := close_of_follower (b := b) free goesOn found (.inl leader) links
      exact ⟨_, .single closed, fails_of_connect (same.claim b start) failed links⟩
  | case6 start draft free' instr claimed goesOn next found plain ih =>
      rw [same.opcode, Bool.not_eq_true] at goesOn
      rw [same.follower] at found
      rw [same.isLeader, Bool.not_eq_true] at plain
      cases owned : claimed.arena.owner next with
      | some owner =>
          rw [Task.fill_of_owner owned] at failed
          cases failed
      | none =>
          obtain ⟨stage, steps, fails⟩ := ih (same.claim b start) owned failed
          have extended : Step code ⟨draft, some (b, start), links⟩
              ⟨claimed, some (b, next), links⟩ :=
            .extend free ⟨goesOn, found, plain⟩ owned
          exact ⟨stage, .head extended steps, fails⟩

/-- Performing the first task of a stage is a run to the stage whose tasks are the
new ones and the others. -/
theorem steps_of_run {stage : Stage n} {task : Task n} {rest new : List (Task n)}
    {after : Draft n} (ready : stage.Ready code) (waiting : stage.tasks = task :: rest)
    (ran : task.run stage.draft = .ok new after) :
    ∃ next, Steps code stage next ∧ next.draft = after ∧ next.tasks = new ++ rest := by
  rcases stage with ⟨draft, _ | ⟨b, i⟩, links⟩
  · cases links with
    | nil => cases waiting
    | cons link links =>
        cases waiting
        obtain ⟨growing, step, created⟩ := step_of_connect ready.same ran links
        refine ⟨_, .single step, rfl, ?_⟩
        rw [created]
        exact pending_append growing [] links
  · cases waiting
    obtain ⟨growing, more, steps, created⟩ :=
      steps_of_fill ready.same (ready.free b i rfl) ran links
    refine ⟨_, steps, rfl, ?_⟩
    rw [created]
    exact pending_append growing more links

/-- A task that fails stops the machine, after the edits that it has made. -/
theorem fails_of_run {stage : Stage n} {task : Task n} {rest : List (Task n)}
    {fault : Fault} {after : Draft n} (ready : stage.Ready code)
    (waiting : stage.tasks = task :: rest)
    (failed : task.run stage.draft = .error fault after) :
    ∃ last, Steps code stage last ∧ Fails code last fault after := by
  rcases stage with ⟨draft, _ | ⟨b, i⟩, links⟩
  · cases links with
    | nil => cases waiting
    | cons link links =>
        cases waiting
        exact ⟨_, .refl, fails_of_connect ready.same failed links⟩
  · cases waiting
    exact fails_of_fill ready.same (ready.free b i rfl) failed links

theorem eq_of_tasks_nil {stage : Stage n} (idle : stage.tasks = []) :
    stage = ⟨stage.draft, none, []⟩ := by
  rcases stage with ⟨draft, _ | ⟨b, i⟩, _ | ⟨link, links⟩⟩
  · rfl
  all_goals cases idle

/-- Performing all tasks of a stage without a fault is a run to a stage that has
none. -/
theorem steps_of_drain {stage : Stage n} {after : Draft n} (ready : stage.Ready code)
    (drained : Task.drain stage.tasks stage.draft = .ok () after) :
    Steps code stage ⟨after, none, []⟩ := by
  generalize waiting : stage.tasks = tasks at drained
  generalize started : stage.draft = draft at drained
  fun_induction Task.drain tasks draft generalizing stage with
  | case1 draft =>
      cases drained
      rw [eq_of_tasks_nil waiting, started]
  | case2 => cases drained
  | case3 draft task rest new middle ran ih =>
      subst started
      obtain ⟨next, steps, reached, left⟩ := steps_of_run ready waiting ran
      exact steps.trans (ih (ready.steps steps) left reached drained)

/-- Performing the tasks of a stage up to a fault is a run to a stage that fails. -/
theorem fails_of_drain {stage : Stage n} {fault : Fault} {after : Draft n}
    (ready : stage.Ready code)
    (failed : Task.drain stage.tasks stage.draft = .error fault after) :
    ∃ last, Steps code stage last ∧ Fails code last fault after := by
  generalize waiting : stage.tasks = tasks at failed
  generalize started : stage.draft = draft at failed
  fun_induction Task.drain tasks draft generalizing stage with
  | case1 => cases failed
  | case2 draft task rest other middle ran =>
      cases failed
      subst started
      exact fails_of_run ready waiting ran
  | case3 draft task rest new middle ran ih =>
      subst started
      obtain ⟨next, steps, reached, left⟩ := steps_of_run ready waiting ran
      obtain ⟨last, more, fails⟩ := ih (ready.steps steps) left reached failed
      exact ⟨last, steps.trans more, fails⟩

/-! ## Construction of a graph -/

/-- The stage at which construction starts: an empty block at the entry. -/
def initial (code : Arena n) (first : Fin n) : Stage n where
  draft :=
    { arena := code.newBlock (code.instr first).address
      graph := { members := [code.blocks.size] } }
  growing := some (code.blocks.size, first)
  links := []

/-- The machine may start if the entry has no owner. -/
theorem ready_initial {first : Fin n} (free : code.owner first = none) :
    (initial code first).Ready code := by
  refine ⟨(Arena.SameCode.refl code).newBlock _, ?_⟩
  intro b i grows
  cases grows
  exact free

end Stage

/-- Constructing a graph of instructions without owners is performing tasks from the initial stage
on. -/
theorem Graph.construct_eq_drain {code : Arena n} {first : Fin n} {rest : List (Fin n)}
    (free : ∀ i ∈ first :: rest, code.owner i = none) :
    Graph.construct (first :: rest) code =
      match Task.drain (Stage.initial code first).tasks (Stage.initial code first).draft with
      | .error fault draft => .error fault draft.arena
      | .ok _ draft => .ok draft.graph draft.arena := by
  have unowned : (first :: rest).find? (fun i => (code.owner i).isSome) = none := by
    rw [List.find?_eq_none]
    intro i listed
    simp [free i listed]
  rw [Graph.construct, unowned]
  rfl

/-- A graph that is constructed is the end of a run of the machine. -/
theorem Graph.steps_of_construct {code after : Arena n} {first : Fin n}
    {rest : List (Fin n)} {graph : Graph} (free : ∀ i ∈ first :: rest, code.owner i = none)
    (constructed : Graph.construct (first :: rest) code = .ok graph after) :
    Stage.Steps code (Stage.initial code first) ⟨⟨after, graph⟩, none, []⟩ := by
  rw [Graph.construct_eq_drain free] at constructed
  split at constructed
  next => cases constructed
  next draft drained =>
    cases constructed
    exact Stage.steps_of_drain (Stage.ready_initial (free first List.mem_cons_self)) drained

/-- A construction that fails is the end of a run of the machine that fails. -/
theorem Graph.fails_of_construct {code after : Arena n} {first : Fin n}
    {rest : List (Fin n)} {fault : Fault} (free : ∀ i ∈ first :: rest, code.owner i = none)
    (failed : Graph.construct (first :: rest) code = .error fault after) :
    ∃ last draft, Stage.Steps code (Stage.initial code first) last ∧
      Stage.Fails code last fault draft ∧ draft.arena = after := by
  rw [Graph.construct_eq_drain free] at failed
  split at failed
  next fault draft drained =>
    cases failed
    obtain ⟨last, steps, fails⟩ :=
      Stage.fails_of_drain (Stage.ready_initial (free first List.mem_cons_self)) drained
    exact ⟨last, draft, steps, fails, rfl⟩
  next => cases failed

end ScriptFlow
