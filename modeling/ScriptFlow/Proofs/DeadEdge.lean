import ScriptFlow.Proofs.Partition
import ScriptFlow.Proofs.Passes

/-!
# Edges marked dead

A block that only doubles the top of the stack and tests the copy (`Arena.Retests`) does
what its parents have done, if each of them ends in the same test and enters it by the
same edge. The value is then known on every way into the block, so a walk that follows
the value (`Arena.ConsistentWalk`) leaves it by that edge too, and not by the dead one.

A script is entered from outside as well. Nothing is known of the value when the entry
block is reached first, and its parents do not say so: the first step of a walk may take
a dead edge, if one leaves the entry block. `Graph.walk_avoids_dead` says that this is the
only way to take one.
-/

namespace ScriptFlow

variable {n : Nat}

/-- No instruction is left by a dead edge. -/
theorem Instruction.Leads.kind_ne_dead {instr : Instruction n}
    {edges : List (Fin n × EdgeKind)} (leads : instr.Leads edges) :
    .dead ∉ edges.map (·.2) := by
  cases leads <;> simp

namespace Arena

/-! ## The pattern -/

/-- A block that does nothing but test the top of the stack. -/
structure Retests (arena : Arena n) (b : BlockId) : Prop where
  jumper : arena.isTopStackJumper b = true
  alone : (arena.block b).instrs.length = 2

instance (arena : Arena n) (b : BlockId) : Decidable (arena.Retests b) :=
  decidable_of_iff (arena.isTopStackJumper b = true ∧ (arena.block b).instrs.length = 2)
    ⟨fun both => ⟨both.1, both.2⟩, fun retests => ⟨retests.jumper, retests.alone⟩⟩

section Pattern

variable {arena : Arena n} {b p : BlockId} {slot : Nat} {edge : DeadEdge}

theorem length_children_of_jumper (jumper : arena.isTopStackJumper b = true) :
    (arena.block b).children.length = 2 := by
  unfold isTopStackJumper at jumper
  split at jumper
  next => simp only [Bool.and_eq_true, decide_eq_true_eq] at jumper; exact jumper.1.1
  next => cases jumper

theorem entrySlot?_eq_some_iff :
    arena.entrySlot? b p = some slot ↔
      arena.isTopStackJumper p = true ∧ arena.childIndex? p b = some slot := by
  simp [entrySlot?]

/-- A block is entered through one place if it has parents, and each of them finds it there. -/
theorem sharedSlot?_eq_some_iff :
    arena.sharedSlot? b = some slot ↔ (arena.block b).parents ≠ [] ∧
      ∀ p ∈ (arena.block b).parents, arena.entrySlot? b p = some slot := by
  unfold sharedSlot?
  cases (arena.block b).parents with
  | nil => simp
  | cons first rest =>
      simp only [List.mem_cons, forall_eq_or_imp, ne_eq, reduceCtorEq, not_false_eq_true,
        true_and]
      cases entered : arena.entrySlot? b first with
      | none => simp
      | some other =>
          by_cases agree : ∀ p ∈ rest, arena.entrySlot? b p = some other
          · have all : (rest.all fun p => decide (arena.entrySlot? b p = some other)) = true := by
              simpa using agree
            simp only [Option.bind_eq_bind, Option.bind_some, all, if_true, Option.some.injEq]
            constructor
            · rintro rfl
              exact ⟨rfl, agree⟩
            · exact fun both => both.1
          · have differ :
                (rest.all fun p => decide (arena.entrySlot? b p = some other)) = false := by
              simpa using agree
            simp only [Option.bind_eq_bind, Option.bind_some, differ]
            simp only [Bool.false_eq_true, if_false, reduceCtorEq, false_iff, not_and]
            intro same
            cases same
            exact agree

/-- The dead edge of a block is the one by which none of its parents enters it. -/
theorem deadEdge?_eq_some_iff :
    arena.deadEdge? b = some edge ↔ arena.Retests b ∧ edge.source = b ∧
      ∃ shared, arena.sharedSlot? b = some shared ∧ edge.slot = 1 - shared ∧
        (arena.block b).children[edge.slot]? = some edge.target := by
  unfold deadEdge?
  split
  next pattern =>
    simp only [Bool.and_eq_true, decide_eq_true_eq] at pattern
    have retests : arena.Retests b := ⟨pattern.1, pattern.2⟩
    simp only [Option.bind_eq_bind, Option.bind_eq_some_iff, retests, true_and]
    constructor
    · rintro ⟨shared, found, target, there, ⟨⟩⟩
      exact ⟨rfl, shared, found, rfl, there⟩
    · rintro ⟨rfl, shared, found, slot, there⟩
      refine ⟨shared, found, edge.target, slot ▸ there, ?_⟩
      rw [← slot]
      rfl
  next other =>
    simp only [Bool.and_eq_true, decide_eq_true_eq] at other
    constructor
    · exact nofun
    · intro dead
      exact (other ⟨dead.1.jumper, dead.1.alone⟩).elim

end Pattern

/-! ## Marking -/

section Retags

variable {before after : Arena n} (retags : before.Retags after) (b : BlockId)

include retags

theorem Retags.isTopStackJumper : after.isTopStackJumper b = before.isTopStackJumper b := by
  simp only [Arena.isTopStackJumper, retags.instrs, retags.children, retags.instr]

theorem Retags.retests : after.Retests b ↔ before.Retests b := by
  constructor
  · intro both
    exact ⟨retags.isTopStackJumper b ▸ both.jumper, retags.instrs b ▸ both.alone⟩
  · intro both
    exact ⟨(retags.isTopStackJumper b).trans both.jumper,
      (congrArg List.length (retags.instrs b)).trans both.alone⟩

/-- Kinds of edges have no say in where a block is entered. -/
theorem Retags.sharedSlot? : after.sharedSlot? b = before.sharedSlot? b := by
  have entry : ∀ p, after.entrySlot? b p = before.entrySlot? b p := by
    intro p
    rw [entrySlot?, childIndex?, retags.isTopStackJumper, retags.children, entrySlot?, childIndex?]
  unfold Arena.sharedSlot?
  rw [retags.parents]
  simp only [entry]

/-- Nor have kinds of edges a say in which edge is dead. -/
theorem Retags.deadEdge? : after.deadEdge? b = before.deadEdge? b := by
  rw [Arena.deadEdge?, retags.isTopStackJumper, retags.instrs, retags.sharedSlot?,
    retags.children, Arena.deadEdge?]

end Retags

/-- The kinds of the edges of a block, with the dead one marked. -/
def markedKinds (arena : Arena n) (b : BlockId) : List EdgeKind :=
  match arena.deadEdge? b with
  | none => (arena.block b).kinds
  | some edge => (arena.block b).kinds.set edge.slot .dead

/-- Marking the dead edge of a block changes kinds of that block only. -/
theorem kinds_tagDeadEdge {arena after : Arena n} {b : BlockId} {edge : Option DeadEdge}
    (ran : tagDeadEdge b arena = .ok edge after) (c : BlockId) :
    (after.block c).kinds = if c = b then arena.markedKinds c else (arena.block c).kinds := by
  rcases tagDeadEdge_of_ok ran with ⟨found, rfl⟩ | ⟨dead, found, bound, rfl⟩
  · split
    next same => rw [same, markedKinds, found]
    next => rfl
  · have stored : b < arena.blocks.size := by
      by_contra beyond
      rw [block_of_size_le (Nat.le_of_not_lt beyond)] at bound
      cases bound
    rw [setKind, block_modifyBlock]
    by_cases same : c = b
    · subst same
      rw [if_pos ⟨rfl, stored⟩, if_pos rfl, markedKinds, found]
    · rw [if_neg fun both => same both.1.symm, if_neg same]

/-- A block that has been marked would be marked the same again. -/
theorem Retags.markedKinds {before after : Arena n} (retags : before.Retags after) {b : BlockId}
    (kinds : (after.block b).kinds = (before.block b).kinds ∨
      (after.block b).kinds = before.markedKinds b) :
    after.markedKinds b = before.markedKinds b := by
  unfold Arena.markedKinds at kinds ⊢
  rw [retags.deadEdge?]
  cases found : before.deadEdge? b with
  | none =>
      rw [found] at kinds
      exact kinds.elim id id
  | some edge =>
      rw [found] at kinds
      rcases kinds with same | marked
      · rw [same]
      · simp only [marked, List.set_set]

/-- Marking the dead edges of some blocks marks those of each, and nothing else. -/
theorem kinds_tagDeadEdges {blocks : List BlockId} {arena after : Arena n}
    {dead : List DeadEdge} (ran : tagDeadEdges blocks arena = .ok dead after) (b : BlockId) :
    (after.block b).kinds =
      if b ∈ blocks then arena.markedKinds b else (arena.block b).kinds := by
  induction blocks generalizing arena dead with
  | nil => cases ran; simp
  | cons c rest ih =>
      obtain ⟨edge, middle, first, ran⟩ := ok_of_bind ran
      obtain ⟨others, _, later, ⟨⟩⟩ := ok_of_bind ran
      have retags := retags_of_tagDeadEdge first
      have here := kinds_tagDeadEdge first b
      have marks : middle.markedKinds b = arena.markedKinds b := by
        apply retags.markedKinds
        rw [here]
        split
        next => exact .inr rfl
        next => exact .inl rfl
      rw [ih later, marks, here]
      by_cases same : b = c <;> by_cases member : b ∈ rest <;> simp [same, member]

/-- Marking the dead edges of blocks changes kinds, and not how many there are. -/
theorem retags_of_tagDeadEdges {blocks : List BlockId} {arena after : Arena n}
    {dead : List DeadEdge} (ran : tagDeadEdges blocks arena = .ok dead after) :
    arena.Retags after := by
  induction blocks generalizing arena dead with
  | nil => cases ran; exact .refl _
  | cons c rest ih =>
      obtain ⟨edge, middle, first, ran⟩ := ok_of_bind ran
      obtain ⟨others, _, later, ⟨⟩⟩ := ok_of_bind ran
      exact (retags_of_tagDeadEdge first).trans (ih later)

theorem edge_of_tagDeadEdge {arena after : Arena n} {b : BlockId} {edge : Option DeadEdge}
    (ran : tagDeadEdge b arena = .ok edge after) : edge = arena.deadEdge? b := by
  obtain ⟨_, _, ⟨⟩, ran⟩ := ok_of_bind ran
  cases found : arena.deadEdge? b with
  | none => rw [found] at ran; cases ran; rfl
  | some dead =>
      rw [found] at ran
      dsimp only at ran
      split at ran
      next =>
        obtain ⟨_, _, ⟨⟩, ⟨⟩⟩ := ok_of_bind ran
        rfl
      next => cases ran

/-- The dead edges that are marked are those there were before. -/
theorem eq_filterMap_of_tagDeadEdges {blocks : List BlockId} {arena after : Arena n}
    {dead : List DeadEdge} (ran : tagDeadEdges blocks arena = .ok dead after) :
    dead = blocks.filterMap arena.deadEdge? := by
  induction blocks generalizing arena dead with
  | nil => cases ran; rfl
  | cons b rest ih =>
      obtain ⟨edge, middle, first, ran⟩ := ok_of_bind ran
      obtain ⟨others, _, later, ⟨⟩⟩ := ok_of_bind ran
      have kept : middle.deadEdge? = arena.deadEdge? :=
        funext (retags_of_tagDeadEdge first).deadEdge?
      rw [ih later, kept, edge_of_tagDeadEdge first, List.filterMap_cons]
      cases arena.deadEdge? b <;> rfl

/-! ## Walks -/

/-- A walk from the entry of a graph, given by its steps: the block that a step leaves, and
the place of the edge by which it does. Two tests of one value in a row come out alike. -/
structure ConsistentWalk (arena : Arena n) (graph : Graph) (walk : List (BlockId × Nat)) :
    Prop where
  starts : ∀ step ∈ walk.head?, graph.members.head? = some step.1
  edges : ∀ step ∈ walk, step.2 < (arena.block step.1).children.length
  joined : walk.IsChain fun step next =>
    (arena.block step.1).children[step.2]? = some next.1
  consistent : walk.IsChain fun step next =>
    arena.isTopStackJumper step.1 = true → arena.Retests next.1 → step.2 = next.2

/-- The step takes an edge that is marked dead. -/
def TakesDead (arena : Arena n) (step : BlockId × Nat) : Prop :=
  (arena.block step.1).kinds[step.2]? = some .dead

instance (arena : Arena n) (step : BlockId × Nat) : Decidable (arena.TakesDead step) :=
  inferInstanceAs (Decidable (_ = _))

section Walks

variable {code middle after : Arena n} {first : Fin n} {graph : Graph} {dead : List DeadEdge}
  {b p : BlockId} {i j : Nat}

/-- A construction records no dead edge. -/
theorem Built.dead_not_mem_kinds (built : code.Built first graph middle)
    (member : b ∈ graph.members) : .dead ∉ (middle.block b).kinds := by
  obtain ⟨last, edges, -, leads, kinds, -⟩ := built.edges b member
  rw [kinds]
  exact leads.kind_ne_dead

/-- A dead edge leaves a block that only tests again, and every parent enters that block
by the other place, through a test. -/
theorem Built.entered_of_takesDead (built : code.Built first graph middle)
    (tagged : tagDeadEdges graph.members middle = .ok dead after)
    (member : b ∈ graph.members) (takes : after.TakesDead (b, j)) :
    middle.Retests b ∧ ∃ shared, j = 1 - shared ∧ ∀ p ∈ (middle.block b).parents,
      middle.isTopStackJumper p = true ∧ middle.childIndex? p b = some shared := by
  have unmarked : (middle.block b).kinds[j]? ≠ some .dead := fun here =>
    built.dead_not_mem_kinds member (List.mem_of_getElem? here)
  rw [TakesDead, kinds_tagDeadEdges tagged, if_pos member, markedKinds] at takes
  cases found : middle.deadEdge? b with
  | none =>
      rw [found] at takes
      exact (unmarked takes).elim
  | some edge =>
      rw [found] at takes
      dsimp only at takes
      obtain ⟨retests, -, shared, agreed, slot, -⟩ := deadEdge?_eq_some_iff.mp found
      rw [List.getElem?_set] at takes
      split at takes
      next same =>
        refine ⟨retests, shared, same ▸ slot, ?_⟩
        intro p parent
        exact entrySlot?_eq_some_iff.mp ((sharedSlot?_eq_some_iff.mp agreed).2 p parent)
      next => exact (unmarked takes).elim

/-- A step of a consistent walk is not followed by one that takes a dead edge. -/
theorem Built.not_takesDead_of_step (built : code.Built first graph middle)
    (tagged : tagDeadEdges graph.members middle = .ok dead after)
    (member : p ∈ graph.members) (single : (middle.block p).children.Nodup)
    (joined : (middle.block p).children[i]? = some b)
    (consistent : middle.isTopStackJumper p = true → middle.Retests b → i = j) :
    ¬ after.TakesDead (b, j) := by
  intro takes
  have child : b ∈ (middle.block p).children := List.mem_of_getElem? joined
  have known := built.linkage.children p member b child
  have parent := (built.mem_parents_iff known).mpr ⟨member, child⟩
  obtain ⟨retests, shared, other, entered⟩ := built.entered_of_takesDead tagged known takes
  obtain ⟨jumper, place⟩ := entered p parent
  obtain ⟨bound, here, -⟩ := List.idxOf?_eq_some_iff.mp place
  obtain ⟨within, there⟩ := List.getElem?_eq_some_iff.mp joined
  -- The block is one child of its parent, so both places are the same.
  have same : i = shared := single.getElem_inj_iff.mp (there.trans here.symm)
  have alike := consistent jumper retests
  have two := length_children_of_jumper jumper
  omega

/-- Where each child is reached by one edge, a walk on which tests of one value agree takes no
dead edge. -/
theorem Built.not_takesDead_of_walk (built : code.Built first graph middle)
    (tagged : tagDeadEdges graph.members middle = .ok dead after)
    (single : ∀ b ∈ graph.members, (middle.block b).children.Nodup)
    {walk : List (BlockId × Nat)} (starts : ∀ step ∈ walk.head?, step.1 ∈ graph.members)
    (joined : walk.IsChain fun step next =>
      (middle.block step.1).children[step.2]? = some next.1)
    (consistent : walk.IsChain fun step next =>
      middle.isTopStackJumper step.1 = true → middle.Retests next.1 → step.2 = next.2) :
    ∀ step ∈ walk.tail, ¬ after.TakesDead step := by
  induction walk with
  | nil => exact nofun
  | cons step rest ih =>
      cases rest with
      | nil => exact nofun
      | cons next rest =>
          rw [List.isChain_cons_cons] at joined consistent
          have member : step.1 ∈ graph.members := starts step rfl
          have child := built.linkage.children _ member _ (List.mem_of_getElem? joined.1)
          intro later listed
          rcases List.mem_cons.mp listed with rfl | listed
          · exact built.not_takesDead_of_step tagged member (single _ member) joined.1
              consistent.1
          · refine ih ?_ joined.2 consistent.2 later listed
            intro head same
            cases same
            exact child

end Walks

end Arena

namespace Graph

variable {arena after : Arena n} {instrs : List (Fin n)} {result : Analysis}

/-- A graph that is constructed of fresh instructions, once they are linked, is built. -/
theorem built_of_listed (fresh : ∀ i ∈ instrs, (arena.instr i).IsFresh)
    {listing linked : Listing n} {code built : Arena n} {graph : Graph}
    (listed : Listing.ofList arena instrs = .ok listing)
    (links : listing.link arena = .ok linked code)
    (constructed : construct linked.items code = .ok graph built) :
    ∃ first, code.Built first graph built := by
  cases instrs with
  | nil =>
      rw [(linked_of_fresh fresh listed links).1] at constructed
      cases constructed
  | cons first rest => exact ⟨first, (built_of_fresh fresh listed links constructed).2.1⟩

/-- What an analysis of fresh instructions with the default options leaves: a built graph
with the dead edges marked. -/
theorem built_of_analyse (fresh : ∀ i ∈ instrs, (arena.instr i).IsFresh)
    (analysed : analyse instrs {} arena = .ok result after) :
    ∃ (code middle : Arena n) (first : Fin n), code.Built first result.graph middle ∧
      Arena.tagDeadEdges result.graph.members middle = .ok result.deadEdges after := by
  obtain ⟨listing, linked, code, middle, listed, links, constructed, tags⟩ :=
    analyse_of_ok analysed
  obtain ⟨first, built⟩ := built_of_listed fresh listed links constructed
  exact ⟨code, middle, first, built, tags⟩

/-- **Dead edges and walks.** Where no block has two edges to one child, a consistent walk
takes no dead edge after its first step; and none at all, whatever the walk, just if no
dead edge leaves the entry block. -/
theorem walk_avoids_dead (fresh : ∀ i ∈ instrs, (arena.instr i).IsFresh)
    (analysed : analyse instrs {} arena = .ok result after)
    (single : ∀ b ∈ result.graph.members, (after.block b).children.Nodup) :
    (∀ walk, after.ConsistentWalk result.graph walk →
      ∀ step ∈ walk.tail, ¬ after.TakesDead step) ∧
    ((∀ walk, after.ConsistentWalk result.graph walk →
        ∀ step ∈ walk, ¬ after.TakesDead step) ↔
      ∀ entry ∈ result.graph.members.head?, .dead ∉ (after.block entry).kinds) := by
  obtain ⟨code, middle, first, built, tagged⟩ := built_of_analyse fresh analysed
  have retags := Arena.retags_of_tagDeadEdges tagged
  simp only [retags.children] at single
  have later : ∀ walk, after.ConsistentWalk result.graph walk →
      ∀ step ∈ walk.tail, ¬ after.TakesDead step := by
    intro walk walks
    apply built.not_takesDead_of_walk tagged single
    · intro step head
      exact List.mem_of_mem_head? (walks.starts step head)
    · simpa only [retags.children] using walks.joined
    · simpa only [retags.isTopStackJumper, retags.retests] using walks.consistent
  refine ⟨later, ?_, ?_⟩
  · intro avoids entry head marked
    obtain ⟨slot, bound, kind⟩ := List.getElem_of_mem marked
    have member : entry ∈ result.graph.members := List.mem_of_mem_head? head
    have length := built.consistent.kinds entry member
    rw [retags.length_kinds, ← length, ← retags.children] at bound
    have walks : after.ConsistentWalk result.graph [(entry, slot)] := by
      refine ⟨?_, ?_, List.isChain_singleton _, List.isChain_singleton _⟩
      · intro step first
        cases first
        exact head
      · intro step listed
        rw [List.mem_singleton.mp listed]
        exact bound
    apply avoids _ walks (entry, slot) (List.mem_singleton_self _)
    exact List.getElem?_eq_some_iff.mpr ⟨_, kind⟩
  · intro clear walk walks step listed
    cases walk with
    | nil => cases listed
    | cons head rest =>
        rcases List.mem_cons.mp listed with rfl | listed
        · intro takes
          exact clear _ (walks.starts _ rfl) (List.mem_of_getElem? takes)
        · exact later _ walks step listed

end Graph

/-- Two operands of a condition, of which the second is tested only if the first was true. -/
def Arena.shortCircuit : Arena 7 where
  instrs := #v[
    { address := 0, opcode := .cptopsp, args := [-4, 4] },
    { address := 8, opcode := .jz, targets := [15] },
    { address := 14, opcode := .retn },
    { address := 15, opcode := .cptopsp, args := [-4, 4] },
    { address := 23, opcode := .jz, targets := [30] },
    { address := 29, opcode := .retn },
    { address := 30, opcode := .retn }]

theorem Graph.walk_avoids_dead_shortCircuit :
    ∃ result after, (∀ i ∈ List.finRange 7, (Arena.shortCircuit.instr i).IsFresh) ∧
      analyse (List.finRange 7) {} Arena.shortCircuit = .ok result after ∧
      (∀ b ∈ result.graph.members, (after.block b).children.Nodup) ∧
      result.deadEdges.length = 1 ∧
      ∀ walk, after.ConsistentWalk result.graph walk →
        ∀ step ∈ walk, ¬ after.TakesDead step := by
  have fresh : ∀ i ∈ List.finRange 7, (Arena.shortCircuit.instr i).IsFresh := by decide
  have runs : (match analyse (List.finRange 7) {} Arena.shortCircuit with
      | .error .. => false
      | .ok result after => decide
          ((∀ b ∈ result.graph.members, (after.block b).children.Nodup) ∧
            result.deadEdges.length = 1 ∧
            ∀ entry ∈ result.graph.members.head?, .dead ∉ (after.block entry).kinds)) = true := by
    decide +kernel
  cases analysed : analyse (List.finRange 7) {} Arena.shortCircuit with
  | error fault after => rw [analysed] at runs; cases runs
  | ok result after =>
      simp only [analysed, decide_eq_true_eq] at runs
      obtain ⟨single, one, clear⟩ := runs
      obtain ⟨-, avoids⟩ := walk_avoids_dead fresh analysed single
      exact ⟨result, after, fresh, rfl, single, one, avoids.mpr clear⟩

/-- A test that goes back to itself. -/
def Arena.retrying : Arena 3 where
  instrs := #v[
    { address := 0, opcode := .cptopsp, args := [-4, 4] },
    { address := 8, opcode := .jz, targets := [0] },
    { address := 14, opcode := .retn }]

/-- The only parent of the entry block is the block itself. Entering the script from outside
with a value that is not zero takes the edge out of it that is marked dead. -/
theorem Graph.walk_takes_dead_retrying :
    ∃ result after walk, (∀ i ∈ List.finRange 3, (Arena.retrying.instr i).IsFresh) ∧
      analyse (List.finRange 3) {} Arena.retrying = .ok result after ∧
      (∀ b ∈ result.graph.members, (after.block b).children.Nodup) ∧
      after.ConsistentWalk result.graph walk ∧ ∃ step ∈ walk, after.TakesDead step := by
  have fresh : ∀ i ∈ List.finRange 3, (Arena.retrying.instr i).IsFresh := by decide
  have runs : (match analyse (List.finRange 3) {} Arena.retrying with
      | .error .. => false
      | .ok result after => decide
          ((∀ b ∈ result.graph.members, (after.block b).children.Nodup) ∧
            result.graph.members.head? = some 0 ∧ 1 < (after.block 0).children.length ∧
            after.TakesDead (0, 1))) = true := by
    decide +kernel
  cases analysed : analyse (List.finRange 3) {} Arena.retrying with
  | error fault after => rw [analysed] at runs; cases runs
  | ok result after =>
      simp only [analysed, decide_eq_true_eq] at runs
      obtain ⟨single, entry, two, takes⟩ := runs
      refine ⟨result, after, [(0, 1)], fresh, rfl, single, ⟨?_, ?_, ?_, ?_⟩, (0, 1),
        List.mem_singleton_self _, takes⟩
      · intro step head
        cases head
        exact entry
      · intro step listed
        rw [List.mem_singleton.mp listed]
        exact two
      · exact List.isChain_singleton _
      · exact List.isChain_singleton _

end ScriptFlow
