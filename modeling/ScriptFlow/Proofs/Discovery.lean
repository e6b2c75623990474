import ScriptFlow.Proofs.Isolation

/-!
# How blocks are discovered

A block is created for an edge that leads to it, and that edge is recorded at once. So the
first parent that is recorded for it is the block it was discovered from, which is older, and
whatever edges are recorded later come behind (`Stage.FoundBy`). Only the entry block is
created without an edge.

This needs nothing of the arena: a construction may start from any blocks and owners. The
first parents of a graph that is returned therefore make a tree with the entry block at its
root (`Graph.discovered_of_construct`).
-/

namespace ScriptFlow

variable {n : Nat}

namespace Stage

variable {code : Arena n} {first : Fin n} {stage next : Stage n} {base : Nat}

/-- A block of the graph was created for an edge from an older one: that is its first
parent. -/
structure FoundBy (draft : Draft n) (p b : BlockId) : Prop where
  member : p ∈ draft.graph.members
  older : p < b
  parent : (draft.arena.block b).parents.head? = some p
  child : b ∈ (draft.arena.block p).children

/-- The graph lists its blocks by age, and all but the first one were found by an edge. -/
structure Discovery (base : Nat) (draft : Draft n) : Prop where
  rising : draft.graph.members.Pairwise (· < ·)
  found : ∀ b ∈ draft.graph.members, b ≠ base → ∃ p, FoundBy draft p b

theorem Discovery.initial : Discovery code.blocks.size (Stage.initial code first).draft := by
  refine ⟨List.pairwise_singleton _ _, ?_⟩
  intro b member other
  exact (other (List.mem_singleton.mp member)).elim

section Draft

variable {draft made : Draft n} {b c p q : BlockId}

theorem FoundBy.claim (found : FoundBy draft p b) (c : BlockId) (i : Fin n) :
    FoundBy (draft.claim c i) p b :=
  ⟨found.member, found.older, by simpa using found.parent, by simpa using found.child⟩

/-- A further edge comes behind the one by which the block was found. -/
theorem FoundBy.addChild (found : FoundBy draft p b) (q c : BlockId) (kind : EdgeKind) :
    FoundBy (draft.addChild q c kind) p b := by
  refine ⟨found.member, found.older, ?_, Arena.mem_children_addChild kind found.child⟩
  rw [Draft.arena_addChild, Arena.parents_addChild]
  split
  next same => rw [same.1, List.head?_append, found.parent, Option.some_or]
  next => exact found.parent

theorem FoundBy.create {address : Address} (found : FoundBy draft p b)
    (present : Membership base draft) (member : b ∈ draft.graph.members)
    (created : Draft.create address draft = .ok c made) : FoundBy made p b := by
  refine ⟨(mem_created created).mpr (.inl found.member), found.older, ?_, ?_⟩
  · rw [block_of_created created (present.lt_size b member)]
    exact found.parent
  · rw [block_of_created created (present.lt_size p found.member)]
    exact found.child

/-- The block that an edge is recorded to as it is created is found by that edge. -/
theorem foundBy_created {address : Address} (present : Membership base draft)
    (member : p ∈ draft.graph.members)
    (created : Draft.create address draft = .ok c made) (kind : EdgeKind) :
    FoundBy (made.addChild p c kind) p c := by
  have kept : p ∈ made.graph.members := (mem_created created).mpr (.inl member)
  have new : c ∈ made.graph.members := (mem_created created).mpr (.inr rfl)
  have stored := (present.create created).lt_size
  refine ⟨kept, ?_, ?_, Arena.mem_children_addChild_self (stored p kept) c kind⟩
  · rw [(Draft.create_of_ok created).1]
    exact present.lt_size p member
  · rw [Draft.arena_addChild, Arena.parents_addChild, if_pos ⟨rfl, stored c new⟩,
      block_created created]
    rfl

theorem rising_created {address : Address} (rising : draft.graph.members.Pairwise (· < ·))
    (present : Membership base draft)
    (created : Draft.create address draft = .ok c made) :
    made.graph.members.Pairwise (· < ·) := by
  obtain ⟨new, -, members⟩ := Draft.create_of_ok created
  rw [members, List.pairwise_append]
  refine ⟨rising, List.pairwise_singleton _ _, ?_⟩
  intro b member d fresh
  rw [List.mem_singleton.mp fresh, new]
  exact present.lt_size b member

end Draft

theorem Discovery.step (discovery : Discovery base stage.draft)
    (present : Membership base stage.draft) (agenda : Agenda code first stage)
    (step : Step code stage next) : Discovery base next.draft := by
  cases step with
  | @extend draft b i next links free continues vacant =>
      refine ⟨discovery.rising, fun c member other => ?_⟩
      obtain ⟨p, found⟩ := discovery.found c member other
      exact ⟨p, found.claim b i⟩
  | @close draft b i links edges free leads waits =>
      refine ⟨discovery.rising, fun c member other => ?_⟩
      obtain ⟨p, found⟩ := discovery.found c member other
      exact ⟨p, found.claim b i⟩
  | @reuse draft q d i kind links owned =>
      refine ⟨discovery.rising, fun c member other => ?_⟩
      obtain ⟨p, found⟩ := discovery.found c member other
      exact ⟨p, found.addChild q d kind⟩
  | @create draft made q d i kind links free created =>
      have rising := rising_created discovery.rising present created
      refine ⟨rising, fun c member other => ?_⟩
      rcases (mem_created created).mp member with old | rfl
      · obtain ⟨p, found⟩ := discovery.found c old other
        exact ⟨p, (found.create present old created).addChild q d kind⟩
      · have parent := (agenda.links _ List.mem_cons_self).1
        exact ⟨q, foundBy_created present parent created kind⟩

/-- From the first block on, each is found from another. -/
theorem Discovery.reaches {draft : Draft n} (discovery : Discovery base draft) (b : BlockId)
    (member : b ∈ draft.graph.members) : Relation.ReflTransGen (FoundBy draft) base b := by
  -- The block that another one was found from is older.
  induction b using Nat.strongRecOn with
  | ind b ih =>
      by_cases entry : b = base
      · rw [entry]
      · obtain ⟨p, found⟩ := discovery.found b member entry
        exact .tail (ih p found.older found.member) found

/-- **Discovery.** At every stage of a construction, a block was found from an older one. -/
theorem discovery_of_steps (steps : Steps code (initial code first) stage) :
    Discovery code.blocks.size stage.draft := by
  induction steps with
  | refl => exact .initial
  | tail steps step ih =>
      obtain ⟨-, present, agenda⟩ := upholds_of_steps steps
      exact ih.step present agenda step

theorem runs_of_steps (steps : Steps code (initial code first) stage) :
    Runs code first stage := by
  induction steps with
  | refl => exact .initial
  | tail steps step ih =>
      obtain ⟨-, present, agenda⟩ := upholds_of_steps steps
      exact ih.step present agenda step

end Stage

/-! ## Graphs that are returned -/

/-- In a list of rising numbers, the smaller one stands earlier. -/
theorem idxOf_lt_of_rising {members : List BlockId} (rising : members.Pairwise (· < ·))
    {p b : BlockId} (left : p ∈ members) (right : b ∈ members) (older : p < b) :
    members.idxOf p < members.idxOf b := by
  have there := List.idxOf_lt_length_of_mem left
  have here := List.idxOf_lt_length_of_mem right
  rcases Nat.lt_trichotomy (members.idxOf p) (members.idxOf b) with earlier | same | later
  · exact earlier
  · rw [List.idxOf_inj left] at same
    exact (Nat.ne_of_lt older same).elim
  · have order := List.pairwise_iff_getElem.mp rising _ _ here there later
    rw [List.getElem_idxOf, List.getElem_idxOf] at order
    exact (Nat.lt_asymm older order).elim

namespace Graph

variable {code after : Arena n} {instrs : List (Fin n)} {graph : Graph}

/-- **Discovery tree.** The first block of a graph that is constructed stands at the first
instruction and starts with it. Every other one has a parent, the first of which stands
before it in the graph. So first parents lead from any block to the first one, and children
from the first one to any block. -/
theorem discovered_of_construct (constructed : construct instrs code = .ok graph after) :
    ∃ first entry, instrs.head? = some first ∧ graph.at? 0 = some entry ∧
      after.address entry = (code.instr first).address ∧
      (after.block entry).instrs.head? = some first ∧
      (∀ b ∈ graph.members, b ≠ entry → ∃ p ∈ graph.members,
        (after.block b).parents.head? = some p ∧
        graph.members.idxOf p < graph.members.idxOf b) ∧
      (∀ b ∈ graph.members,
        Relation.ReflTransGen (fun c p => (after.block c).parents.head? = some p) b entry) ∧
      ∀ b ∈ graph.members,
        Relation.ReflTransGen (fun p c => c ∈ (after.block p).children) entry b := by
  cases instrs with
  | nil => cases constructed
  | cons first rest =>
      have steps := steps_of_construct (free_of_construct constructed) constructed
      have present := membership_of_construct constructed
      have runs := Stage.runs_of_steps steps
      have discovery := Stage.discovery_of_steps steps
      have entered : code.blocks.size ∈ graph.members := List.mem_of_mem_head? present.entry
      have starts : (after.block code.blocks.size).instrs.head? = some first := by
        rw [← runs.entry, Stage.body_idle]
      refine ⟨first, code.blocks.size, rfl, ?_, ?_, starts, ?_, ?_, ?_⟩
      · exact List.head?_eq_getElem?.symm.trans present.entry
      · obtain ⟨i, head, address, -⟩ := runs.starts _ entered
        rw [runs.entry] at head
        cases head
        exact address.symm
      · intro b member other
        obtain ⟨p, found⟩ := discovery.found b member other
        exact ⟨p, found.member, found.parent,
          idxOf_lt_of_rising discovery.rising found.member member found.older⟩
      · intro b member
        exact Relation.ReflTransGen.mono (fun c p found => found.parent) _ _
          (discovery.reaches b member).swap
      · intro b member
        exact Relation.ReflTransGen.mono (fun p c found => found.child) _ _
          (discovery.reaches b member)

end Graph

/-- A test that leads to a call, at once or by a jump. The call comes back to a jump to the
start. -/
def Arena.revisiting : Arena 8 where
  instrs := #v[
    { address := 0, opcode := .nop, follower := some 1 },
    { address := 2, opcode := .jz, branches := [4, 2] },
    { address := 8, opcode := .nop, follower := some 3 },
    { address := 10, opcode := .jmp, branches := [4] },
    { address := 16, opcode := .jsr, branches := [6], follower := some 5 },
    { address := 22, opcode := .jmp, branches := [0] },
    { address := 28, opcode := .nop, follower := some 7 },
    { address := 30, opcode := .retn }]

/-- The start gets a parent as well, and the call a second one that is younger than itself. -/
theorem Graph.discovered_of_construct_revisiting :
    ∃ graph after, construct (List.finRange 8) Arena.revisiting = .ok graph after ∧
      graph.members = [0, 1, 2, 3, 4] ∧ (after.block 0).parents = [3] ∧
      (after.block 1).parents = [0, 4] ∧
      Relation.ReflTransGen (fun c p => (after.block c).parents.head? = some p) 4 0 ∧
      Relation.ReflTransGen (fun p c => c ∈ (after.block p).children) 0 3 := by
  have runs : (match construct (List.finRange 8) Arena.revisiting with
      | .error .. => false
      | .ok graph after => decide (graph.members = [0, 1, 2, 3, 4] ∧
          (after.block 0).parents = [3] ∧ (after.block 1).parents = [0, 4])) = true := by
    decide +kernel
  cases constructed : construct (List.finRange 8) Arena.revisiting with
  | error fault after => rw [constructed] at runs; cases runs
  | ok graph after =>
      simp only [constructed, decide_eq_true_eq] at runs
      obtain ⟨members, start, call⟩ := runs
      obtain ⟨first, entry, -, here, -, -, -, up, down⟩ := discovered_of_construct constructed
      have root : entry = 0 := by
        rw [at?, members] at here
        exact (Option.some.inj here).symm
      have jump : 4 ∈ graph.members := by simp [members]
      have back : 3 ∈ graph.members := by simp [members]
      exact ⟨graph, after, rfl, members, start, call, root ▸ up 4 jump, root ▸ down 3 back⟩

end ScriptFlow
