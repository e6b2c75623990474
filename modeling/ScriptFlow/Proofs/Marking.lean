import ScriptFlow.Proofs.Coherence
import ScriptFlow.Proofs.DeadEdge

/-!
# Marking in any order

Whether a block has a dead edge depends on its instructions and its neighbours, and on
theirs. Marking an edge changes none of these (`Arena.Retags.deadEdge?`), so it does not
matter what has been marked before: marking comes to the same in any order of the blocks,
and however often a block is named. `Arena.marked` says at once what becomes of the arena,
and `Arena.tagDeadEdges_eq` that marking one block after the other gets there.

A construction records no edge as dead (`Stage.Live`). What is dead in a new graph
afterwards has been marked, one kind for each edge that was found.
-/

namespace ScriptFlow

variable {n : Nat}

namespace Arena

variable {arena : Arena n} {blocks xs ys : List BlockId}

/-! ## The marked arena -/

/-- The arena with the dead edges of some blocks marked. -/
def marked (arena : Arena n) (blocks : List BlockId) : Arena n :=
  { arena with
    blocks := arena.blocks.mapIdx fun b block =>
      if b ∈ blocks then { block with kinds := arena.markedKinds b } else block }

@[simp] theorem size_marked (arena : Arena n) (blocks : List BlockId) :
    (arena.marked blocks).blocks.size = arena.blocks.size :=
  Array.size_mapIdx

theorem length_markedKinds (arena : Arena n) (b : BlockId) :
    (arena.markedKinds b).length = (arena.block b).kinds.length := by
  unfold markedKinds
  split
  next => rfl
  next => rw [List.length_set]

/-- Marking changes the kinds of the blocks that are named. -/
theorem block_marked (arena : Arena n) (blocks : List BlockId) (b : BlockId) :
    (arena.marked blocks).block b =
      if b ∈ blocks then { arena.block b with kinds := arena.markedKinds b }
      else arena.block b := by
  by_cases bound : b < arena.blocks.size
  · simp only [marked, block, Array.getElem?_mapIdx, Array.getElem?_eq_getElem bound,
      Option.map_some, Option.getD_some]
  · have beyond : arena.blocks.size ≤ b := Nat.le_of_not_lt bound
    have empty : arena.markedKinds b = [] := by
      rw [← List.length_eq_zero_iff, length_markedKinds, block_of_size_le beyond]
      rfl
    rw [block_of_size_le (by rwa [size_marked]), block_of_size_le beyond, empty, ite_self]

/-- Marking changes kinds, and not how many there are. -/
theorem retags_marked (arena : Arena n) (blocks : List BlockId) :
    arena.Retags (arena.marked blocks) := by
  refine ⟨fun _ => rfl, fun b => ?_⟩
  rw [block_marked]
  split
  next => exact ⟨_, rfl, length_markedKinds arena b⟩
  next => exact ⟨_, rfl, rfl⟩

/-- Only which blocks are named matters, not their order or how often they are. -/
theorem marked_congr (same : ∀ b, b ∈ xs ↔ b ∈ ys) : arena.marked xs = arena.marked ys := by
  simp only [marked, same]

/-- Arenas with as many blocks, and the same ones, are equal. -/
theorem eq_of_block {one other : Arena n} (instr : ∀ i, one.instr i = other.instr i)
    (size : one.blocks.size = other.blocks.size) (block : ∀ b, one.block b = other.block b) :
    one = other := by
  refine Arena.ext instr (Array.ext size ?_)
  intro b here there
  have same := block b
  simpa only [Arena.block, Array.getElem?_eq_getElem, here, there, Option.getD_some] using same

/-- Blocks may be marked in two goes. -/
theorem marked_append : arena.marked (xs ++ ys) = (arena.marked xs).marked ys := by
  have retags := retags_marked arena xs
  refine eq_of_block (fun _ => rfl) (by simp only [size_marked]) ?_
  intro b
  -- What a block has been marked with already is what it is marked with again.
  have again : (arena.marked xs).markedKinds b = arena.markedKinds b := by
    apply retags.markedKinds
    rw [block_marked]
    split
    next => exact .inr rfl
    next => exact .inl rfl
  rw [block_marked, block_marked, again, block_marked]
  by_cases early : b ∈ xs <;> by_cases late : b ∈ ys <;> simp [early, late]

/-! ## Marking one block after the other -/

theorem size_of_tagDeadEdges {after : Arena n} {dead : List DeadEdge}
    (ran : tagDeadEdges blocks arena = .ok dead after) :
    after.blocks.size = arena.blocks.size := by
  induction blocks generalizing arena dead with
  | nil => cases ran; rfl
  | cons b rest ih =>
      obtain ⟨edge, middle, first, ran⟩ := ok_of_bind ran
      obtain ⟨others, _, later, ⟨⟩⟩ := ok_of_bind ran
      rw [ih later]
      rcases tagDeadEdge_of_ok first with ⟨-, rfl⟩ | ⟨edge, -, -, rfl⟩
      · rfl
      · rw [setKind, size_modifyBlock]

section Paired

variable (kinds : ∀ b ∈ blocks, (arena.block b).children.length = (arena.block b).kinds.length)

include kinds

/-- Marking finds the dead edges there were before it, and leaves the marked arena. -/
theorem tagDeadEdges_eq :
    tagDeadEdges blocks arena =
      .ok (blocks.filterMap arena.deadEdge?) (arena.marked blocks) := by
  obtain ⟨dead, after, ran, retags⟩ := tagDeadEdges_ok kinds
  have same : after = arena.marked blocks := by
    refine eq_of_block retags.instr ?_ ?_
    · rw [size_of_tagDeadEdges ran, size_marked]
    · intro b
      obtain ⟨left, changed, -⟩ := retags.block b
      have marks := kinds_tagDeadEdges ran b
      rw [changed] at marks ⊢
      dsimp only at marks
      rw [block_marked, marks]
      split
      next => rfl
      next => rfl
  rw [ran, eq_filterMap_of_tagDeadEdges ran, same]

/-- Marking goes on from a marked arena as it would have gone on without a break. -/
theorem tagDeadEdges_marked (earlier : List BlockId) :
    tagDeadEdges blocks (arena.marked earlier) =
      .ok (blocks.filterMap arena.deadEdge?) (arena.marked (earlier ++ blocks)) := by
  have retags := retags_marked arena earlier
  have kept : (arena.marked earlier).deadEdge? = arena.deadEdge? := funext retags.deadEdge?
  have paired : ∀ b ∈ blocks, ((arena.marked earlier).block b).children.length =
      ((arena.marked earlier).block b).kinds.length := by
    simpa only [retags.children, retags.length_kinds] using kinds
  rw [tagDeadEdges_eq paired, kept, marked_append]

variable (live : ∀ b ∈ blocks, .dead ∉ (arena.block b).kinds)

include live

/-- The dead kinds are as many as the dead edges there were to mark. -/
theorem count_markedKinds :
    (blocks.flatMap arena.markedKinds).count .dead =
      (blocks.filterMap arena.deadEdge?).length := by
  induction blocks with
  | nil => rfl
  | cons b rest ih =>
      rw [List.forall_mem_cons] at kinds live
      have clean := List.count_eq_zero.mpr live.1
      rw [List.flatMap_cons, List.count_append, ih kinds.2 live.2, List.filterMap_cons,
        markedKinds]
      cases found : arena.deadEdge? b with
      | none => rw [clean, Nat.zero_add]
      | some edge =>
          have bound : edge.slot < (arena.block b).kinds.length :=
            kinds.1 ▸ slot_lt_of_deadEdge? found
          have single : ((arena.block b).kinds.set edge.slot .dead).count .dead = 1 := by
            rw [List.count_set bound, clean, Nat.zero_sub]
            rfl
          dsimp only
          rw [single, List.length_cons, Nat.add_comm]

/-- Where no edge of some blocks was dead, marking reports as many edges as are dead then. -/
theorem length_of_tagDeadEdges {after : Arena n} {dead : List DeadEdge}
    (ran : tagDeadEdges blocks arena = .ok dead after) :
    dead.length = (blocks.flatMap fun b => (after.block b).kinds).count .dead := by
  have marks : (blocks.flatMap fun b => (after.block b).kinds) =
      blocks.flatMap arena.markedKinds := by
    apply List.flatMap_congr
    intro b member
    rw [kinds_tagDeadEdges ran, if_pos member]
  rw [marks, count_markedKinds kinds live, eq_filterMap_of_tagDeadEdges ran]

end Paired

end Arena

/-! ## New graphs -/

/-- No edge of the graph is dead, and none will be recorded as such. -/
structure Stage.Live (stage : Stage n) : Prop where
  kinds : ∀ b ∈ stage.draft.graph.members, .dead ∉ (stage.draft.arena.block b).kinds
  links : ∀ link ∈ stage.links, link.kind ≠ .dead

namespace Stage

variable {code : Arena n} {first : Fin n} {stage next : Stage n} {base : Nat}

theorem Live.initial : (initial code first).Live := by
  refine ⟨?_, nofun⟩
  intro b member
  rw [List.mem_singleton.mp member, block_initial]
  exact nofun

theorem dead_not_mem_addChild {arena : Arena n} {p c b : BlockId} {kind : EdgeKind}
    (above : .dead ∉ (arena.block p).kinds) (here : .dead ∉ (arena.block b).kinds)
    (alive : kind ≠ .dead) : .dead ∉ ((arena.addChild p c kind).block b).kinds := by
  rw [Arena.kinds_addChild]
  split
  next =>
    rw [List.mem_append, List.mem_singleton]
    exact fun listed => listed.elim above alive.symm
  next => exact here

/-- No edit records a dead edge. -/
theorem Live.step (live : stage.Live) (present : Membership base stage.draft)
    (agenda : Agenda code first stage) (step : Step code stage next) : next.Live := by
  cases step with
  | @extend draft b i next links free continues vacant =>
      exact ⟨by simpa using live.kinds, live.links⟩
  | @close draft b i links edges free leads waits =>
      refine ⟨by simpa using live.kinds, ?_⟩
      intro link pending
      rcases List.mem_append.mp pending with new | old
      · obtain ⟨edge, listed, rfl⟩ := List.mem_map.mp new
        exact fun dead => leads.kind_ne_dead (List.mem_map.mpr ⟨edge, listed, dead⟩)
      · exact live.links link old
  | @reuse draft p c d kind links owned =>
      have parent := (agenda.links _ List.mem_cons_self).1
      refine ⟨?_, fun link pending => live.links link (List.mem_cons_of_mem _ pending)⟩
      intro b member
      exact dead_not_mem_addChild (live.kinds p parent) (live.kinds b member)
        (live.links _ List.mem_cons_self)
  | @create draft made p c d kind links free created =>
      have parent := (agenda.links _ List.mem_cons_self).1
      have kinds : ∀ b ∈ made.graph.members, .dead ∉ (made.arena.block b).kinds := by
        intro b member
        rcases (mem_created created).mp member with old | rfl
        · rw [block_of_created created (present.lt_size b old)]
          exact live.kinds b old
        · rw [block_created created]
          exact nofun
      refine ⟨?_, fun link pending => live.links link (List.mem_cons_of_mem _ pending)⟩
      intro b member
      exact dead_not_mem_addChild (kinds p ((mem_created created).mpr (.inl parent)))
        (kinds b member) (live.links _ List.mem_cons_self)

/-- There is no dead edge at any stage of a construction. -/
theorem live_of_steps (steps : Steps code (initial code first) stage) : stage.Live := by
  induction steps with
  | refl => exact .initial
  | tail steps step ih =>
      obtain ⟨-, present, agenda⟩ := upholds_of_steps steps
      exact ih.step present agenda step

end Stage

/-- No edge of a graph that is constructed is dead, whatever there was before. -/
theorem Graph.dead_not_mem_of_construct {code after : Arena n} {instrs : List (Fin n)}
    {graph : Graph} (constructed : construct instrs code = .ok graph after) :
    ∀ b ∈ graph.members, .dead ∉ (after.block b).kinds := by
  cases instrs with
  | nil => cases constructed
  | cons first rest =>
      have steps := steps_of_construct (free_of_construct constructed) constructed
      exact (Stage.live_of_steps steps).kinds

/-! ## Sessions -/

/-- **Marking.** From an arena without blocks, any changes lead to one where marking dead
edges comes to the same in any order of the blocks, in one go or in two, and once more. For
a new graph it reports as many edges as are dead then. -/
theorem Session.tagDeadEdges_of_perform {arena : Arena n} (free : ∀ i, arena.owner i = none)
    (bare : arena.blocks = #[]) (run : List (Mutation n)) :
    let reached := (({ arena } : Session n).perform run).arena
    (∀ xs, ∃ dead after, Arena.tagDeadEdges xs reached = .ok dead after ∧
      (∀ ys, ys.Perm xs → ∃ dead', Arena.tagDeadEdges ys reached = .ok dead' after ∧
        dead'.length = dead.length) ∧
      (∀ ys, ∃ more last, Arena.tagDeadEdges ys after = .ok more last ∧
        Arena.tagDeadEdges (xs ++ ys) reached = .ok (dead ++ more) last) ∧
      Arena.tagDeadEdges xs after = .ok dead after) ∧
    ∀ instrs graph built, Graph.construct instrs reached = .ok graph built →
      ∃ dead after, Arena.tagDeadEdges graph.members built = .ok dead after ∧
        dead.length = (graph.members.flatMap fun b => (after.block b).kinds).count .dead := by
  intro reached
  have upholds := (upholds_perform run { arena }).arena
  have grounded : reached.Grounded := upholds.grounded (Arena.grounded_of_unowned free)
  have sound : reached.Coherent :=
    upholds.coherent (Arena.grounded_of_unowned free) (Arena.coherent_of_bare bare)
  have marks := fun xs => Arena.tagDeadEdges_eq fun b (_ : b ∈ xs) => sound.kinds b
  refine ⟨?_, ?_⟩
  · intro xs
    have goesOn := fun ys => Arena.tagDeadEdges_marked (fun b (_ : b ∈ ys) => sound.kinds b) xs
    refine ⟨_, _, marks xs, ?_, ?_, ?_⟩
    · intro ys perm
      refine ⟨_, ?_, (perm.filterMap _).length_eq⟩
      rw [marks, Arena.marked_congr fun b => perm.mem_iff]
    · intro ys
      refine ⟨_, _, goesOn ys, ?_⟩
      rw [marks, List.filterMap_append]
    · have once : ∀ b, b ∈ xs ++ xs ↔ b ∈ xs := fun b => by rw [List.mem_append, or_self]
      rw [goesOn, Arena.marked_congr once]
  · intro instrs graph built constructed
    have upholds := (Graph.upholds_construct instrs).of_ok constructed
    have kinds := fun b (_ : b ∈ graph.members) => (upholds.coherent grounded sound).kinds b
    have ran := Arena.tagDeadEdges_eq kinds
    exact ⟨_, _, ran,
      Arena.length_of_tagDeadEdges kinds (Graph.dead_not_mem_of_construct constructed) ran⟩

/-- Two tests that a caller may join in a circle, and two of which one leads to the other. -/
def Arena.circling : Arena 10 where
  instrs := #v[
    { address := 0, opcode := .cptopsp, args := [-4, 4] },
    { address := 8, opcode := .jz },
    { address := 14, opcode := .cptopsp, args := [-4, 4] },
    { address := 22, opcode := .jz },
    { address := 28, opcode := .cptopsp, args := [-4, 4], follower := some 5 },
    { address := 36, opcode := .jz, branches := [8, 6] },
    { address := 42, opcode := .cptopsp, args := [-4, 4], follower := some 7 },
    { address := 50, opcode := .jz, branches := [8, 9] },
    { address := 56, opcode := .retn },
    { address := 58, opcode := .retn }]

/-- Two tests in a circle, of which each makes an edge of the other one dead, are marked the same
in any order. -/
theorem Session.tagDeadEdges_of_perform_circling :
    let run := [.addBlock 0, .addBlock 14, .addBlock 28, .addInstruction 0 0,
      .addInstruction 0 1, .addInstruction 1 2, .addInstruction 1 3,
      .addChild 0 1 .conditionalTrue, .addChild 0 2 .conditionalFalse,
      .addChild 1 0 .conditionalTrue, .addChild 1 2 .conditionalFalse]
    let reached := (({ arena := Arena.circling } : Session 10).perform run).arena
    (∀ i, Arena.circling.owner i = none) ∧ Arena.circling.blocks = #[] ∧
      (∃ dead after dead', Arena.tagDeadEdges [0, 1, 0] reached = .ok dead after ∧
        dead.length = 3 ∧ (after.block 0).kinds = [.conditionalTrue, .dead] ∧
        Arena.tagDeadEdges [1, 0, 0] reached = .ok dead' after ∧ dead'.length = 3 ∧
        Arena.tagDeadEdges [0, 1, 0] after = .ok dead after) ∧
      ∃ graph built dead after, Graph.construct [4, 5, 6, 7, 8, 9] reached = .ok graph built ∧
        Arena.tagDeadEdges graph.members built = .ok dead after ∧ dead.length = 1 ∧
        (graph.members.flatMap fun b => (after.block b).kinds).count .dead = 1 := by
  intro run reached
  have free : ∀ i, Arena.circling.owner i = none := by decide
  obtain ⟨alike, counts⟩ := tagDeadEdges_of_perform free rfl run
  refine ⟨free, rfl, ?_, ?_⟩
  · have marks : (match Arena.tagDeadEdges [0, 1, 0] reached with
        | .error .. => false
        | .ok dead after => decide (dead.length = 3 ∧
            (after.block 0).kinds = [.conditionalTrue, .dead])) = true := by
      decide +kernel
    obtain ⟨dead, after, ran, permuted, -, again⟩ := alike [0, 1, 0]
    obtain ⟨dead', ran', length⟩ := permuted [1, 0, 0] (by decide)
    simp only [reached, ran, decide_eq_true_eq] at marks
    exact ⟨dead, after, dead', ran, marks.1, marks.2, ran', length.trans marks.1, again⟩
  · have marks : (match Graph.construct [4, 5, 6, 7, 8, 9] reached with
        | .error .. => false
        | .ok graph built => match Arena.tagDeadEdges graph.members built with
          | .error .. => false
          | .ok dead _ => decide (dead.length = 1)) = true := by
      decide +kernel
    cases constructed : Graph.construct [4, 5, 6, 7, 8, 9] reached with
    | error fault built => rw [constructed] at marks; cases marks
    | ok graph built =>
        obtain ⟨dead, after, ran, count⟩ := counts _ graph built constructed
        simp only [constructed, ran, decide_eq_true_eq] at marks
        exact ⟨graph, built, dead, after, rfl, ran, marks, count.symm.trans marks⟩

end ScriptFlow
