import ScriptFlow.Proofs.Retagging

/-!
# Edges into a block that tests again

The place by which a parent enters a block is looked up by the block, so of several edges
from one parent the first one answers (`Arena.childIndex?`). What marking makes of it is a
law about first edges (`Arena.DeadByFirst`). The law about all edges (`Arena.DeadByEdges`)
asks for more: a parent that enters the block by both places leaves nothing known about
the value that is tested. `Arena.deadByEdges_iff` says what is missing, which is that no
block has two edges to the one that is marked.
-/

namespace ScriptFlow

variable {n : Nat}

namespace Arena

/-! ## Two laws -/

/-- The block only tests again, it is entered, and every edge into it leaves a test by the
place other than `slot`. -/
structure DeadByEdges (arena : Arena n) (blocks : List BlockId) (b : BlockId) (slot : Nat) :
    Prop where
  tests : arena.DoublesAndTests b
  entered : ∃ p ∈ blocks, b ∈ (arena.block p).children
  agreed : ∀ p ∈ blocks, ∀ place : Nat, (arena.block p).children[place]? = some b →
    arena.isTopStackJumper p = true ∧ place + slot = 1

/-- The same, but only of the first edge of each block that has one. -/
structure DeadByFirst (arena : Arena n) (blocks : List BlockId) (b : BlockId) (slot : Nat) :
    Prop where
  tests : arena.DoublesAndTests b
  entered : ∃ p ∈ blocks, b ∈ (arena.block p).children
  agreed : ∀ p ∈ blocks, ∀ place : Nat, arena.childIndex? p b = some place →
    arena.isTopStackJumper p = true ∧ place + slot = 1

/-- No block has two edges to `b`. -/
def EnteredOnce (arena : Arena n) (blocks : List BlockId) (b : BlockId) : Prop :=
  ∀ p ∈ blocks, ∀ place place' : Nat, (arena.block p).children[place]? = some b →
    (arena.block p).children[place']? = some b → place = place'

section Laws

variable {arena : Arena n} {blocks : List BlockId} {b p : BlockId} {place slot : Nat}

/-- All edges agree just if the first ones do and there are no others. -/
theorem deadByEdges_iff :
    arena.DeadByEdges blocks b slot ↔
      arena.DeadByFirst blocks b slot ∧ arena.EnteredOnce blocks b := by
  constructor
  · rintro ⟨tests, entered, agreed⟩
    refine ⟨⟨tests, entered, ?_⟩, ?_⟩
    · intro p member place found
      exact agreed p member place (getElem?_of_childIndex? found)
    · intro p member place place' here there
      have left := (agreed p member place here).2
      have right := (agreed p member place' there).2
      omega
  · rintro ⟨⟨tests, entered, agreed⟩, once⟩
    refine ⟨tests, entered, ?_⟩
    intro p member place here
    obtain ⟨first, found⟩ := exists_childIndex? (List.mem_of_getElem? here)
    have same := once p member place first here (getElem?_of_childIndex? found)
    rw [same]
    exact agreed p member first found

end Laws

/-! ## Built graphs -/

section Built

variable {code built after : Arena n} {first : Fin n} {graph : Graph} {dead : List DeadEdge}
  {b p : BlockId} {slot : Nat}

/-- A block that ends in a `JZ` has two children, so its instructions tell whether it tests
again. -/
theorem Built.retests_iff (made : code.Built first graph built) (member : b ∈ graph.members) :
    built.Retests b ↔ built.DoublesAndTests b := by
  refine ⟨Retests.doublesAndTests, ?_⟩
  rintro ⟨doubler, test, instrs, doubles, copies, tests⟩
  obtain ⟨last, edges, ends, leads, kinds, -⟩ := made.edges b member
  rw [instrs] at ends
  obtain rfl : test = last := Option.some.inj ends
  have jumps := tests
  rw [made.same.opcode] at jumps
  have two : (built.block b).children.length = 2 := by
    rw [made.consistent.kinds b member, kinds, leads.kinds_of_jz jumps]
    rfl
  refine ⟨?_, by rw [instrs]; rfl⟩
  rw [isTopStackJumper, instrs]
  simp [two, Instruction.isStackDoubler, Instruction.doublerArgs, doubles, copies, tests]

/-- An edge is marked just if it is the dead edge of its block. -/
theorem Built.takesDead_iff_deadEdge? (made : code.Built first graph built)
    (tagged : tagDeadEdges graph.members built = .ok dead after)
    (member : b ∈ graph.members) :
    after.TakesDead (b, slot) ↔ ∃ edge, built.deadEdge? b = some edge ∧ edge.slot = slot := by
  have unmarked : (built.block b).kinds[slot]? ≠ some .dead := fun here =>
    made.dead_not_mem_kinds member (List.mem_of_getElem? here)
  rw [TakesDead, kinds_tagDeadEdges tagged, if_pos member, markedKinds]
  cases found : built.deadEdge? b with
  | none => simpa using unmarked
  | some edge =>
      have bound := slot_lt_of_deadEdge? found
      rw [made.consistent.kinds b member] at bound
      by_cases same : edge.slot = slot
      · simp [same ▸ bound, same]
      · simpa [List.getElem?_set, same] using unmarked

/-- What marking does: the first edges decide. -/
theorem Built.takesDead_iff (made : code.Built first graph built)
    (tagged : tagDeadEdges graph.members built = .ok dead after)
    (member : b ∈ graph.members) :
    after.TakesDead (b, slot) ↔ built.DeadByFirst graph.members b slot := by
  rw [made.takesDead_iff_deadEdge? tagged member]
  constructor
  · rintro ⟨edge, found, rfl⟩
    obtain ⟨retests, -, shared, agreed, slot, -⟩ := deadEdge?_eq_some_iff.mp found
    obtain ⟨some, agreed⟩ := sharedSlot?_eq_some_iff.mp agreed
    refine ⟨(made.retests_iff member).mp retests, ?_, ?_⟩
    · obtain ⟨p, parent⟩ := List.exists_mem_of_ne_nil _ some
      exact ⟨p, (made.mem_parents_iff member).mp parent⟩
    · intro p known place here
      have child := List.mem_of_getElem? (getElem?_of_childIndex? here)
      have parent := (made.mem_parents_iff member).mpr ⟨known, child⟩
      obtain ⟨jumper, there⟩ := entrySlot?_eq_some_iff.mp (agreed p parent)
      obtain rfl : place = shared := Option.some.inj (here.symm.trans there)
      -- A test has two children, so the place is one of two.
      obtain ⟨bound, -⟩ := List.getElem?_eq_some_iff.mp (getElem?_of_childIndex? here)
      have two := length_children_of_jumper jumper
      exact ⟨jumper, by omega⟩
  · rintro ⟨tests, ⟨p, known, child⟩, agreed⟩
    have retests := (made.retests_iff member).mpr tests
    obtain ⟨shared, found⟩ := exists_childIndex? child
    have sum := (agreed p known shared found).2
    have two := length_children_of_jumper retests.jumper
    have bound : slot < (built.block b).children.length := by omega
    have entry : ∀ q ∈ (built.block b).parents, built.entrySlot? b q = some shared := by
      intro q parent
      obtain ⟨known, child⟩ := (made.mem_parents_iff member).mp parent
      obtain ⟨place, there⟩ := exists_childIndex? child
      obtain ⟨jumper, same⟩ := agreed q known place there
      obtain rfl : place = shared := by omega
      exact entrySlot?_eq_some_iff.mpr ⟨jumper, there⟩
    have parent := (made.mem_parents_iff member).mpr ⟨known, child⟩
    refine ⟨⟨b, slot, (built.block b).children[slot]⟩, deadEdge?_eq_some_iff.mpr ?_, rfl⟩
    refine ⟨retests, rfl, shared, ?_, by dsimp only; omega, List.getElem?_eq_getElem bound⟩
    exact sharedSlot?_eq_some_iff.mpr ⟨List.ne_nil_of_mem parent, entry⟩

/-- The kinds of the other edges stay. -/
theorem Built.kinds_of_not_takesDead (made : code.Built first graph built)
    (tagged : tagDeadEdges graph.members built = .ok dead after)
    (live : ¬ after.TakesDead (b, slot)) :
    (after.block b).kinds[slot]? = (built.block b).kinds[slot]? := by
  by_cases member : b ∈ graph.members
  · rw [made.takesDead_iff_deadEdge? tagged member] at live
    rw [kinds_tagDeadEdges tagged, if_pos member, markedKinds]
    cases found : built.deadEdge? b with
    | none => rfl
    | some edge =>
        have other : edge.slot ≠ slot := fun same => live ⟨edge, found, same⟩
        rw [List.getElem?_set_ne other]
  · rw [kinds_tagDeadEdges tagged, if_neg member]

end Built

end Arena

/-- **Edges into a block.** Marking the dead edges of a graph of fresh instructions succeeds.
It changes the kinds of dead edges only, and an edge is dead for it if the first edge from
each parent says so. That every edge into the block does, each counted for itself, is the
same just if no block has two edges to it. -/
theorem Graph.takesDead_iff_edges {arena code built : Arena n} {instrs : List (Fin n)}
    {listing linked : Listing n} {graph : Graph}
    (fresh : ∀ i ∈ instrs, (arena.instr i).IsFresh)
    (listed : Listing.ofList arena instrs = .ok listing)
    (links : listing.link arena = .ok linked code)
    (constructed : construct linked.items code = .ok graph built) :
    ∃ dead after, Arena.tagDeadEdges graph.members built = .ok dead after ∧
      built.Retags after ∧
      (∀ b slot, ¬ after.TakesDead (b, slot) →
        (after.block b).kinds[slot]? = (built.block b).kinds[slot]?) ∧
      ∀ b ∈ graph.members, ∀ slot,
        (after.TakesDead (b, slot) ↔ built.DeadByFirst graph.members b slot) ∧
        (built.DeadByEdges graph.members b slot ↔
          after.TakesDead (b, slot) ∧ built.EnteredOnce graph.members b) := by
  obtain ⟨first, made⟩ := built_of_listed fresh listed links constructed
  obtain ⟨dead, after, tagged, retags⟩ := Arena.tagDeadEdges_ok made.consistent.kinds
  refine ⟨dead, after, tagged, retags, fun b slot => made.kinds_of_not_takesDead tagged, ?_⟩
  intro b member slot
  have marked : after.TakesDead (b, slot) ↔ built.DeadByFirst graph.members b slot :=
    made.takesDead_iff tagged member
  exact ⟨marked, by rw [marked, Arena.deadByEdges_iff]⟩

/-! ## Two scripts -/

/-- The graph of a sequence of instructions, with the arena before and after its dead edges
are marked. -/
def Graph.marking? (instrs : List (Fin n)) (arena : Arena n) :
    Option (Graph × Arena n × Arena n) :=
  match Listing.ofList arena instrs with
  | .error _ => none
  | .ok listing =>
      match listing.link arena with
      | .error .. => none
      | .ok linked code =>
          match construct linked.items code with
          | .error .. => none
          | .ok graph built =>
              match Arena.tagDeadEdges graph.members built with
              | .error .. => none
              | .ok _ after => some (graph, built, after)

theorem Graph.of_marking? {arena built after : Arena n} {instrs : List (Fin n)} {graph : Graph}
    (found : marking? instrs arena = some (graph, built, after)) :
    ∃ listing linked code dead, Listing.ofList arena instrs = .ok listing ∧
      listing.link arena = .ok linked code ∧ construct linked.items code = .ok graph built ∧
      Arena.tagDeadEdges graph.members built = .ok dead after := by
  unfold marking? at found
  split at found
  next => cases found
  next listing listed =>
    split at found
    next => cases found
    next linked code links =>
      split at found
      next => cases found
      next constructed =>
        split at found
        next => cases found
        next dead _ tagged =>
          cases found
          exact ⟨listing, linked, code, dead, listed, links, constructed, tagged⟩

theorem Graph.takesDead_iff_edges_shortCircuit :
    ∃ listing linked code graph built dead after,
      (∀ i ∈ List.finRange 7, (Arena.shortCircuit.instr i).IsFresh) ∧
      Listing.ofList Arena.shortCircuit (List.finRange 7) = .ok listing ∧
      listing.link Arena.shortCircuit = .ok linked code ∧
      construct linked.items code = .ok graph built ∧
      Arena.tagDeadEdges graph.members built = .ok dead after ∧ 1 ∈ graph.members ∧
      built.DeadByEdges graph.members 1 1 ∧ (after.block 1).kinds = [.conditionalTrue, .dead] := by
  have fresh : ∀ i ∈ List.finRange 7, (Arena.shortCircuit.instr i).IsFresh := by decide
  have runs : (marking? (List.finRange 7) Arena.shortCircuit).any
      (fun (graph, built, after) => decide (1 ∈ graph.members ∧
        (∀ p ∈ graph.members, (built.block p).children.Nodup) ∧
        (after.block 1).kinds = [.conditionalTrue, .dead])) = true := by
    decide +kernel
  obtain ⟨⟨graph, built, after⟩, found, holds⟩ := Option.any_eq_true _ _ |>.mp runs
  obtain ⟨member, single, kinds⟩ := of_decide_eq_true holds
  obtain ⟨listing, linked, code, dead, listed, links, constructed, tagged⟩ := of_marking? found
  obtain ⟨dead', after', tagged', -, -, laws⟩ :=
    takesDead_iff_edges fresh listed links constructed
  rw [tagged] at tagged'
  cases tagged'
  have once : built.EnteredOnce graph.members 1 := by
    intro p known place place' here there
    obtain ⟨bound, -⟩ := List.getElem?_eq_some_iff.mp here
    exact (List.getElem?_inj bound (single p known)).mp (here.trans there.symm)
  have takes : after.TakesDead (1, 1) := by
    rw [Arena.TakesDead, kinds]
    rfl
  exact ⟨listing, linked, code, graph, built, dead, after, fresh, listed, links, constructed,
    tagged, member, (laws 1 member 1).2.mpr ⟨takes, once⟩, kinds⟩

/-- Two tests in a row, the first of which goes to the second whether it jumps or not. -/
def Arena.indifferent : Arena 6 where
  instrs := #v[
    { address := 0, opcode := .cptopsp, args := [-4, 4] },
    { address := 8, opcode := .jz, targets := [14] },
    { address := 14, opcode := .cptopsp, args := [-4, 4] },
    { address := 22, opcode := .jz, targets := [30] },
    { address := 28, opcode := .retn },
    { address := 30, opcode := .retn }]

/-- The second test is entered by both edges of the first, and one of its own edges is marked
all the same. -/
theorem Graph.takesDead_indifferent :
    ∃ listing linked code graph built dead after,
      (∀ i ∈ List.finRange 6, (Arena.indifferent.instr i).IsFresh) ∧
      Listing.ofList Arena.indifferent (List.finRange 6) = .ok listing ∧
      listing.link Arena.indifferent = .ok linked code ∧
      construct linked.items code = .ok graph built ∧
      Arena.tagDeadEdges graph.members built = .ok dead after ∧
      ∃ b ∈ graph.members, ∃ slot, after.TakesDead (b, slot) ∧
        ¬ built.DeadByEdges graph.members b slot := by
  have fresh : ∀ i ∈ List.finRange 6, (Arena.indifferent.instr i).IsFresh := by decide
  have runs : (marking? (List.finRange 6) Arena.indifferent).any
      (fun (graph, built, after) => decide (0 ∈ graph.members ∧ 1 ∈ graph.members ∧
        (built.block 0).children = [1, 1] ∧ after.TakesDead (1, 1))) = true := by
    decide +kernel
  obtain ⟨⟨graph, built, after⟩, found, holds⟩ := Option.any_eq_true _ _ |>.mp runs
  obtain ⟨entry, member, children, takes⟩ := of_decide_eq_true holds
  obtain ⟨listing, linked, code, dead, listed, links, constructed, tagged⟩ := of_marking? found
  refine ⟨listing, linked, code, graph, built, dead, after, fresh, listed, links, constructed,
    tagged, 1, member, 1, takes, ?_⟩
  intro law
  have second : (built.block 0).children[1]? = some 1 := by rw [children]; rfl
  have sum := (law.agreed 0 entry 1 second).2
  omega

end ScriptFlow
