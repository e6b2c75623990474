import ScriptFlow.Proofs.Coherence

/-!
# Passes that share instructions

A construction refuses instructions that have a block, but only those it is given. What
they lead to may belong to an earlier graph: then the construction records an edge to a
block of that graph, and the block records its new parent.

Growth follows every way that control may take (`Stage.Covers`), so the first instruction
with an older block is always met. `Session.isolated_of_construct` says that a construction
keeps to itself exactly if nothing that it reaches had a block before.
-/

namespace ScriptFlow

variable {n : Nat}

namespace Arena

variable {arena : Arena n} {b c p : BlockId}

theorem block_claim_of_ne (i : Fin n) (other : b ≠ c) :
    (arena.claim b i).block c = arena.block c := by
  rw [block_claim, instrs_claim, if_neg fun both => other both.1]

theorem block_addChild_of_ne (kind : EdgeKind) (parent : p ≠ b) (child : c ≠ b) :
    (arena.addChild p c kind).block b = arena.block b := by
  rw [addChild, block_modifyBlock, if_neg fun both => child both.1, block_modifyBlock,
    if_neg fun both => parent both.1]

theorem mem_children_addChild_self (parent : p < arena.blocks.size) (c : BlockId)
    (kind : EdgeKind) : c ∈ ((arena.addChild p c kind).block p).children := by
  rw [children_addChild, if_pos ⟨rfl, parent⟩]
  exact List.mem_append_right _ (List.mem_singleton_self c)

/-- Children stay children. -/
theorem mem_children_addChild {d : BlockId} (kind : EdgeKind)
    (child : d ∈ (arena.block b).children) :
    d ∈ ((arena.addChild p c kind).block b).children := by
  rw [children_addChild]
  split
  next same => rw [same.1]; exact List.mem_append_left _ child
  next => exact child

end Arena

namespace Stage

variable {code : Arena n} {first : Fin n} {stage next : Stage n} {base : Nat} {b : BlockId}
  {j : Fin n}

/-! ## Older blocks -/

/-- A construction that reaches no instruction with a block leaves the older blocks alone. -/
theorem block_step (sound : Sound code first stage) (step : Step code stage next)
    (old : b < code.blocks.size) : next.draft.arena.block b = stage.draft.arena.block b := by
  have apart : ∀ c ∈ stage.draft.graph.members, c ≠ b := fun c member =>
    Nat.ne_of_gt (Nat.lt_of_lt_of_le old (sound.membership.base_le c member))
  cases step with
  | @extend draft p i next links free continues vacant =>
      exact Arena.block_claim_of_ne i (apart p (sound.agenda.growing p i rfl).1)
  | @close draft p i links edges free leads waits =>
      exact Arena.block_claim_of_ne i (apart p (sound.agenda.growing p i rfl).1)
  | @reuse draft p c d kind links owned =>
      obtain ⟨parent, reached⟩ := sound.agenda.links _ List.mem_cons_self
      exact Arena.block_addChild_of_ne kind (apart p parent)
        (apart c (sound.ownership.owned d c reached owned).1)
  | @create draft made p c d kind links free created =>
      obtain ⟨parent, -⟩ := sound.agenda.links _ List.mem_cons_self
      have stored : b < draft.arena.blocks.size := by
        have entry := sound.membership.lt_size _ (List.mem_of_mem_head? sound.membership.entry)
        exact Nat.lt_trans old entry
      have child : c ≠ b := (ne_created created stored).symm
      rw [Draft.arena_addChild, Arena.block_addChild_of_ne kind (apart p parent) child,
        block_of_created created stored]

/-- No edit changes a block that was there before the construction. -/
theorem block_of_steps (free : ∀ i, code.Reaches first i → code.owner i = none)
    (steps : Steps code (initial code first) stage) (old : b < code.blocks.size) :
    stage.draft.arena.block b = code.block b := by
  induction steps with
  | refl =>
      show (code.newBlock _).block b = _
      rw [Arena.block_newBlock, if_neg (Nat.ne_of_lt old)]
  | tail steps step ih => rw [block_step (sound_of_steps free steps) step old, ih]

/-! ## Ways that are followed -/

/-- The block owns the instruction, or is to claim it next. -/
def Takes (stage : Stage n) (b : BlockId) (i : Fin n) : Prop :=
  stage.draft.arena.owner i = some b ∨ stage.growing = some (b, i)

/-- Control that leaves block `b` for `j` is followed: an edge there waits to be recorded,
or the block or a child of it has the instruction. -/
def Follows (stage : Stage n) (b : BlockId) (j : Fin n) : Prop :=
  (∃ link ∈ stage.links, link.parent = b ∧ link.destination = j) ∨
    ∃ c, (c = b ∨ c ∈ (stage.draft.arena.block b).children) ∧ stage.Takes c j

/-- The instructions that the construction has claimed belong to blocks of the graph, and
every way on from them is followed. -/
def Covers (code : Arena n) (stage : Stage n) : Prop :=
  ∀ i b, stage.draft.arena.owner i = some b → code.owner i = none →
    b ∈ stage.draft.graph.members ∧ ∀ j, code.Flows i j → stage.Follows b j

theorem Covers.initial : Covers code (Stage.initial code first) := by
  intro i b owned free
  have unowned : (Stage.initial code first).draft.arena.owner i = none := free
  rw [unowned] at owned
  cases owned

/-- What a growing block is to claim is its own once it has claimed it. -/
theorem Takes.claim {draft : Draft n} {b c : BlockId} {i j : Fin n} {links more : List (Link n)}
    {growing : Option (BlockId × Fin n)} (free : draft.arena.owner i = none)
    (takes : Stage.Takes ⟨draft, some (b, i), links⟩ c j) :
    Stage.Takes ⟨draft.claim b i, growing, more⟩ c j := by
  refine .inl ((Arena.owner_claim ..).trans ?_)
  rcases takes with owned | ⟨⟨⟩⟩
  · have other : i ≠ j := by
      rintro rfl
      exact Option.some_ne_none c (owned.symm.trans free)
    rw [if_neg other]
    exact owned
  · exact if_pos rfl

/-- What is followed stays so: an edge that waits is recorded in the end. -/
theorem Follows.step (follows : stage.Follows b j) (present : Membership base stage.draft)
    (member : b ∈ stage.draft.graph.members) (step : Step code stage next) :
    next.Follows b j := by
  cases step with
  | @extend draft p i next links free continues vacant =>
      rcases follows with waits | ⟨c, child, takes⟩
      · exact .inl waits
      · exact .inr ⟨c, by simpa using child, takes.claim free⟩
  | @close draft p i links edges free leads waits =>
      rcases follows with ⟨link, waits, ends⟩ | ⟨c, child, takes⟩
      · exact .inl ⟨link, List.mem_append_right _ waits, ends⟩
      · exact .inr ⟨c, by simpa using child, takes.claim free⟩
  | @reuse draft p c d kind links owned =>
      rcases follows with ⟨link, waits, parent, ends⟩ | ⟨e, child, takes⟩
      · rcases List.mem_cons.mp waits with rfl | later
        · cases parent
          cases ends
          refine .inr ⟨c, .inr ?_, .inl owned⟩
          exact Arena.mem_children_addChild_self (present.lt_size p member) c kind
        · exact .inl ⟨link, later, parent, ends⟩
      · exact .inr ⟨e, child.imp_right (Arena.mem_children_addChild kind),
          .inl (takes.resolve_right nofun)⟩
  | @create draft made p c d kind links free created =>
      have old := present.lt_size b member
      rcases follows with ⟨link, waits, parent, ends⟩ | ⟨e, child, takes⟩
      · rcases List.mem_cons.mp waits with rfl | later
        · cases parent
          cases ends
          refine .inr ⟨c, .inr ?_, .inr rfl⟩
          have known := (mem_created created).mpr (.inl member)
          exact Arena.mem_children_addChild_self ((present.create created).lt_size p known) c kind
        · exact .inl ⟨link, later, parent, ends⟩
      · rw [← block_of_created created old] at child
        refine .inr ⟨e, child.imp_right (Arena.mem_children_addChild kind), .inl ?_⟩
        exact (owner_created created j).trans (takes.resolve_right nofun)

/-- Every edit sees to it that the ways on from what it claims are followed. -/
theorem Covers.step (covers : Covers code stage) (present : Membership base stage.draft)
    (agenda : Agenda code first stage) (step : Step code stage next) : Covers code next := by
  have kept : ∀ i b, stage.draft.arena.owner i = some b → code.owner i = none →
      b ∈ next.draft.graph.members ∧ ∀ j, code.Flows i j → next.Follows b j := by
    intro i b owned free
    obtain ⟨member, follows⟩ := covers i b owned free
    exact ⟨member_step step member, fun j flows => (follows j flows).step present member step⟩
  cases step with
  | @extend draft p k next links free continues vacant =>
      intro i b owned unowned
      rw [Draft.arena_claim, Arena.owner_claim] at owned
      split at owned
      next same =>
        cases owned
        subst same
        refine ⟨(agenda.growing p k rfl).1, ?_⟩
        intro j flows
        rw [Arena.Flows, Instruction.successors_of_not_endsBlock continues.goesOn,
          continues.follower] at flows
        cases List.mem_singleton.mp flows
        exact .inr ⟨p, .inl rfl, .inr rfl⟩
      next => exact kept i b owned unowned
  | @close draft p k links edges free leads waits =>
      intro i b owned unowned
      rw [Draft.arena_claim, Arena.owner_claim] at owned
      split at owned
      next same =>
        cases owned
        subst same
        refine ⟨(agenda.growing p k rfl).1, ?_⟩
        intro j flows
        rw [Arena.Flows, leads.successors_eq] at flows
        obtain ⟨edge, listed, rfl⟩ := List.mem_map.mp flows
        exact .inl ⟨_, List.mem_append_left _ (List.mem_map_of_mem listed), rfl, rfl⟩
      next => exact kept i b owned unowned
  | reuse => exact kept
  | create free created =>
      intro i b owned unowned
      exact kept i b ((owner_created created i).symm.trans owned) unowned

/-- **Coverage.** A construction follows every way on from what it claims. -/
theorem covers_of_steps (steps : Steps code (initial code first) stage) :
    Covers code stage := by
  induction steps with
  | refl => exact .initial
  | tail steps step ih =>
      obtain ⟨-, present, agenda⟩ := upholds_of_steps steps
      exact ih.step present agenda step

end Stage

/-! ## Passes -/

namespace Graph

variable {code after : Arena n} {first : Fin n} {rest : List (Fin n)} {graph : Graph}

/-- A construction that reaches no instruction with a block keeps to its own blocks. -/
theorem isolated_of_unowned (unowned : ∀ i, code.Reaches first i → code.owner i = none)
    (constructed : construct (first :: rest) code = .ok graph after) :
    (∀ b < code.blocks.size, after.block b = code.block b) ∧
      ∀ b ∈ graph.members, ∀ c ∈ (after.block b).children, c ∈ graph.members := by
  have free := free_of_construct constructed
  have steps := steps_of_construct free constructed
  exact ⟨fun b old => Stage.block_of_steps unowned steps old,
    (built_of_construct free unowned constructed).linkage.children⟩

/-- If the edges of a graph stay within it, no instruction that it reaches had a block. -/
theorem unowned_of_closed (grounded : code.Grounded)
    (constructed : construct (first :: rest) code = .ok graph after)
    (closed : ∀ b ∈ graph.members, ∀ c ∈ (after.block b).children, c ∈ graph.members) :
    ∀ i, code.Reaches first i → code.owner i = none := by
  have free := free_of_construct constructed
  have covers := Stage.covers_of_steps (steps_of_construct free constructed)
  have upholds := (upholds_construct _).of_ok constructed
  have present := membership_of_construct constructed
  intro i reached
  -- What is reached is claimed as well, so that the next instruction is followed.
  suffices both : code.owner i = none ∧ after.owner i ≠ none from both.1
  induction reached with
  | refl => exact ⟨free first List.mem_cons_self, entered_of_construct constructed⟩
  | @tail i j reached flows ih =>
      obtain ⟨unowned, claimed⟩ := ih
      obtain ⟨b, owned⟩ := Option.ne_none_iff_exists'.mp claimed
      obtain ⟨member, follows⟩ := covers i b owned unowned
      rcases follows j flows with ⟨link, waits, -⟩ | ⟨c, child, takes⟩
      · cases waits
      have taken : after.owner j = some c := takes.resolve_right nofun
      have known : c ∈ graph.members := by
        rcases child with rfl | child
        · exact member
        · exact closed b member c child
      refine ⟨?_, Option.ne_none_iff_exists'.mpr ⟨c, taken⟩⟩
      -- An older owner would be older than the graph.
      cases older : code.owner j with
      | none => rfl
      | some d =>
          have same : some d = some c := (upholds.owner j d older).symm.trans taken
          cases same
          exact (Nat.not_lt.mpr (present.base_le c known) (grounded j c older)).elim

end Graph

/-- **Separate passes.** After any changes to an arena, a construction from instructions of
which one has a block is refused, and does nothing. One that succeeds leaves the blocks of
all earlier graphs as they are, and has edges within its own graph only, just if none of the
instructions that can be reached from the first one had a block. -/
theorem Session.isolated_of_construct {arena : Arena n} (grounded : arena.Grounded)
    (run : List (Mutation n)) (first : Fin n) (rest : List (Fin n)) :
    let session := ({ arena } : Session n).perform run
    (∀ i ∈ first :: rest, session.arena.owner i ≠ none →
      ∃ j ∈ first :: rest, Graph.construct (first :: rest) session.arena =
        .error (.alreadyOwned (session.arena.instr j).address) session.arena) ∧
    ∀ graph after, Graph.construct (first :: rest) session.arena = .ok graph after →
      (((∀ earlier ∈ session.graphs, ∀ b ∈ earlier.members,
          after.block b = session.arena.block b) ∧
        ∀ b ∈ graph.members, ∀ c ∈ (after.block b).children, c ∈ graph.members) ↔
      ∀ i, session.arena.Reaches first i → session.arena.owner i = none) := by
  intro session
  have upholds := upholds_perform run { arena }
  have known : ∀ graph ∈ session.graphs, ∀ b ∈ graph.members, b < session.arena.blocks.size :=
    upholds.members nofun
  refine ⟨?_, ?_⟩
  · intro i listed owned
    obtain ⟨j, member, -, refused⟩ := Graph.construct_of_owned listed owned
    exact ⟨j, member, refused⟩
  · intro graph after constructed
    constructor
    · intro isolated
      exact Graph.unowned_of_closed (upholds.arena.grounded grounded) constructed isolated.2
    · intro unowned
      obtain ⟨kept, closed⟩ := Graph.isolated_of_unowned unowned constructed
      exact ⟨fun earlier made b member => kept b (known earlier made b member), closed⟩

/-- Two pieces of code that share nothing, the second one a loop. -/
def Arena.parted : Arena 5 where
  instrs := #v[
    { address := 0, opcode := .nop, follower := some 1 },
    { address := 2, opcode := .retn },
    { address := 4, opcode := .jz, branches := [4, 3] },
    { address := 10, opcode := .retn },
    { address := 12, opcode := .jmp, branches := [2] }]

/-- The second piece of code makes a graph of its own, and the first graph stays as it was. -/
theorem Session.isolated_of_construct_parted :
    let session := ({ arena := Arena.parted } : Session 5).perform [.construct [0, 1]]
    Arena.parted.Grounded ∧ session.graphs.length = 1 ∧
      ∃ graph after, Graph.construct [2, 3, 4] session.arena = .ok graph after ∧
        graph.members = [1, 2, 3] ∧
        (∀ earlier ∈ session.graphs, ∀ b ∈ earlier.members,
          after.block b = session.arena.block b) ∧
        ∀ b ∈ graph.members, ∀ c ∈ (after.block b).children, c ∈ graph.members := by
  intro session
  have grounded : Arena.parted.Grounded := Arena.grounded_of_unowned (by decide)
  have one : session.graphs.length = 1 := by decide +kernel
  have runs : (match Graph.construct [2, 3, 4] session.arena with
      | .error .. => false
      | .ok graph _ => decide (graph.members = [1, 2, 3])) = true := by decide +kernel
  have steps : ∀ i j, 2 ≤ i → session.arena.Flows i j → 2 ≤ j := by decide +kernel
  have inside : ∀ i, session.arena.Reaches 2 i → 2 ≤ i := by
    intro i reached
    induction reached with
    | refl => exact Fin.le_refl 2
    | tail _ flows ih => exact steps _ _ ih flows
  have free : ∀ i, 2 ≤ i → session.arena.owner i = none := by decide +kernel
  obtain ⟨-, isolates⟩ := isolated_of_construct grounded [.construct [0, 1]] 2 [3, 4]
  cases constructed : Graph.construct [2, 3, 4] session.arena with
  | error fault after => rw [constructed] at runs; cases runs
  | ok graph after =>
      simp only [constructed, decide_eq_true_eq] at runs
      have isolated := (isolates graph after constructed).mpr fun i reached =>
        free i (inside i reached)
      exact ⟨grounded, one, graph, after, rfl, runs, isolated⟩

/-- An instruction that leads into the next one. -/
def Arena.stepping : Arena 2 where
  instrs := #v[
    { address := 0, opcode := .nop, follower := some 1 },
    { address := 2, opcode := .retn }]

/-- The second construction is given an instruction without a block only. It ends in the
block of the first one, which gets a parent that its graph does not know. -/
theorem Session.construct_shares_stepping :
    let session := ({ arena := Arena.stepping } : Session 2).perform [.construct [1]]
    ∃ graph after, Graph.construct [0] session.arena = .ok graph after ∧
      (∃ earlier ∈ session.graphs, ∃ b ∈ earlier.members,
        after.block b ≠ session.arena.block b) ∧
      ∃ b ∈ graph.members, ∃ c ∈ (after.block b).children, c ∉ graph.members := by
  intro session
  have runs : (match Graph.construct [0] session.arena with
      | .error .. => false
      | .ok graph after => decide
          ((∃ earlier ∈ session.graphs, ∃ b ∈ earlier.members,
            after.block b ≠ session.arena.block b) ∧
          ∃ b ∈ graph.members, ∃ c ∈ (after.block b).children, c ∉ graph.members)) = true := by
    decide +kernel
  cases constructed : Graph.construct [0] session.arena with
  | error fault after => rw [constructed] at runs; cases runs
  | ok graph after =>
      simp only [constructed, decide_eq_true_eq] at runs
      exact ⟨graph, after, rfl, runs⟩

end ScriptFlow
