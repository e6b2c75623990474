import ScriptFlow.Proofs.DeadEdge
import ScriptFlow.Proofs.Unreached

/-!
# One change to one list of a block

What a block lists is recorded a second time elsewhere: an edge at its other end and by its
kind, an instruction in its slot and in the sequence that the blocks cover. A change at the
end of one list alone (`Edit`) puts the two records out of step, so blocks that an audit finds
nothing wrong with are no such blocks after it (`Arena.WellFormed.edited`).
-/

namespace ScriptFlow

variable {n : Nat}

theorem Sequence.pop?_of_ne_nil {α : Type} {items : List α} (some : items ≠ []) :
    ∃ rest last, items = rest ++ [last] ∧ pop? items = Option.some rest := by
  obtain rfl | ⟨rest, last, rfl⟩ := List.eq_nil_or_concat items
  · exact (some rfl).elim
  · exact ⟨rest, last, List.concat_eq_append, by rw [List.concat_eq_append, pop?_concat]⟩

/-- The edit adds an instruction of the sequence or one of the blocks, or it removes an entry
of a list that has one. -/
def Edit.Fits (blocks : List BlockId) (sequence : List (Fin n)) (block : Block n) :
    Edit n → Prop
  | pushInstr i => i ∈ sequence
  | pushParent p => p ∈ blocks
  | pushChild c => c ∈ blocks
  | pushKind _ => True
  | popInstr => block.instrs ≠ []
  | popParent => block.parents ≠ []
  | popChild => block.children ≠ []
  | popKind => block.kinds ≠ []

namespace Arena

variable {arena : Arena n} {blocks : List BlockId} {sequence : List (Fin n)} {b c : BlockId}
  {new : Block n}

theorem edit_of_some {change : Edit n} (found : (arena.block b).edit? change = some new) :
    edit b change arena = .ok () (arena.modifyBlock b fun _ => new) := by
  have read : (get : Action n (Arena n)) arena = .ok arena arena := rfl
  rw [edit, bind_of_ok read, found]
  rfl

theorem WellFormed.nodup_instrs (formed : arena.WellFormed blocks) (member : b ∈ blocks) :
    (arena.block b).instrs.Nodup :=
  (List.nodup_flatMap.mp formed.once).1 b member

theorem children_replaced (same : new.children = (arena.block b).children) :
    ((arena.modifyBlock b fun _ => new).block c).children = (arena.block c).children := by
  rw [block_modifyBlock]
  split
  next here => rw [same, here.1]
  next => rfl

section Replaced

variable (bound : b < arena.blocks.size)

include bound

theorem block_replaced_self : (arena.modifyBlock b fun _ => new).block b = new := by
  rw [block_modifyBlock, if_pos ⟨rfl, bound⟩]

/-- The numbers of children and of kinds must change together. -/
theorem not_wellFormed_of_length (member : b ∈ blocks)
    (differ : new.children.length ≠ new.kinds.length) :
    ¬ (arena.modifyBlock b fun _ => new).WellFormed blocks := by
  intro formed
  have kinds := formed.kinds b member
  rw [block_replaced_self bound] at kinds
  exact differ kinds

/-- A block cannot count another number of edges from a parent alone. -/
theorem WellFormed.not_wellFormed_of_count (formed : arena.WellFormed blocks)
    (member : b ∈ blocks) {p : BlockId} (known : p ∈ blocks)
    (same : new.children = (arena.block b).children)
    (differ : new.parents.count p ≠ (arena.block b).parents.count p) :
    ¬ (arena.modifyBlock b fun _ => new).WellFormed blocks := by
  intro after
  have before := formed.paired p known b member
  have paired := after.paired p known b member
  rw [children_replaced same, block_replaced_self bound, before] at paired
  exact differ paired.symm

/-- An instruction that is covered already cannot be listed once more. -/
theorem WellFormed.not_wellFormed_of_relisted (formed : arena.WellFormed blocks)
    (covers : arena.Covers blocks sequence) (member : b ∈ blocks) {i : Fin n}
    (placed : i ∈ sequence) (added : new.instrs = (arena.block b).instrs ++ [i]) :
    ¬ (arena.modifyBlock b fun _ => new).WellFormed blocks := by
  intro after
  obtain ⟨c, other, listed⟩ := covers.listed i placed
  have once := after.nodup_instrs member
  have owned := after.owned b member i
  rw [block_replaced_self bound, added] at once owned
  -- The slot of the instruction has not changed, so the block had listed it before.
  have owner : arena.owner i = some b := owned (by simp)
  rw [formed.owned c other i listed] at owner
  rw [Option.some.inj owner] at listed
  exact (List.nodup_append.mp once).2.2 i listed i (List.mem_singleton_self i) rfl

/-- An instruction of the sequence cannot be left out. -/
theorem WellFormed.not_covers_of_unlisted (formed : arena.WellFormed blocks)
    (covers : arena.Covers blocks sequence) (member : b ∈ blocks) {i : Fin n}
    (removed : (arena.block b).instrs = new.instrs ++ [i]) :
    ¬ (arena.modifyBlock b fun _ => new).Covers blocks sequence := by
  intro after
  have here : i ∈ (arena.block b).instrs := by
    rw [removed]
    simp
  obtain ⟨c, other, listed⟩ := after.listed i ((covers.segment b member).subset here)
  rw [block_modifyBlock] at listed
  split at listed
  next =>
    have once := formed.nodup_instrs member
    rw [removed] at once
    exact (List.nodup_append.mp once).2.2 i listed i (List.mem_singleton_self i) rfl
  next elsewhere =>
    have owner := formed.owned b member i here
    rw [formed.owned c other i listed] at owner
    exact elsewhere ⟨(Option.some.inj owner).symm, bound⟩

/-- No edit of one list leads from blocks in order to blocks in order. -/
theorem WellFormed.edited (formed : arena.WellFormed blocks)
    (covers : arena.Covers blocks sequence) (member : b ∈ blocks)
    (parents : ∀ p ∈ (arena.block b).parents, p ∈ blocks) {change : Edit n}
    (fits : change.Fits blocks sequence (arena.block b)) :
    ∃ new, (arena.block b).edit? change = some new ∧
      ¬ ((arena.modifyBlock b fun _ => new).WellFormed blocks ∧
        (arena.modifyBlock b fun _ => new).Covers blocks sequence) := by
  have kinds := formed.kinds b member
  cases change with
  | pushInstr i =>
      refine ⟨_, rfl, not_and_of_not_left _ ?_⟩
      exact formed.not_wellFormed_of_relisted bound covers member fits rfl
  | pushParent p =>
      refine ⟨_, rfl, not_and_of_not_left _ ?_⟩
      exact formed.not_wellFormed_of_count bound member fits rfl (by simp)
  | pushChild c =>
      refine ⟨_, rfl, not_and_of_not_left _ ?_⟩
      exact not_wellFormed_of_length bound member (by simp; omega)
  | pushKind kind =>
      refine ⟨_, rfl, not_and_of_not_left _ ?_⟩
      exact not_wellFormed_of_length bound member (by simp; omega)
  | popInstr =>
      obtain ⟨rest, last, split, popped⟩ := Sequence.pop?_of_ne_nil fits
      refine ⟨{ arena.block b with instrs := rest }, by rw [Block.edit?, popped]; rfl,
        not_and_of_not_right _ ?_⟩
      exact formed.not_covers_of_unlisted bound covers member split
  | popParent =>
      obtain ⟨rest, last, split, popped⟩ := Sequence.pop?_of_ne_nil fits
      refine ⟨{ arena.block b with parents := rest }, by rw [Block.edit?, popped]; rfl,
        not_and_of_not_left _ ?_⟩
      have known : last ∈ blocks := parents last (by rw [split]; simp)
      exact formed.not_wellFormed_of_count bound member known rfl (by simp [split])
  | popChild =>
      obtain ⟨rest, last, split, popped⟩ := Sequence.pop?_of_ne_nil fits
      refine ⟨{ arena.block b with children := rest }, by rw [Block.edit?, popped]; rfl,
        not_and_of_not_left _ ?_⟩
      rw [split, List.length_append, List.length_singleton] at kinds
      exact not_wellFormed_of_length bound member (by dsimp only; omega)
  | popKind =>
      obtain ⟨rest, last, split, popped⟩ := Sequence.pop?_of_ne_nil fits
      refine ⟨{ arena.block b with kinds := rest }, by rw [Block.edit?, popped]; rfl,
        not_and_of_not_left _ ?_⟩
      rw [split, List.length_append, List.length_singleton] at kinds
      exact not_wellFormed_of_length bound member (by dsimp only; omega)

end Replaced

end Arena

/-- **Tampering shows.** Where an audit finds nothing wrong with the graph of a linked listing,
and one list of one of its blocks is then changed at its end, an audit finds something. -/
theorem Graph.audit_edited {arena code after : Arena n} {instrs : List (Fin n)}
    {listing linked : Listing n} {graph : Graph}
    (fresh : ∀ i ∈ instrs, (arena.instr i).IsFresh)
    (listed : Listing.ofList arena instrs = .ok listing)
    (links : listing.link arena = .ok linked code)
    (constructed : construct linked.items code = .ok graph after)
    (clean : after.audit graph.members (some linked.items) = []) :
    ∀ b ∈ graph.members, ∀ change : Edit n,
      change.Fits graph.members linked.items (after.block b) →
      ∃ edited, Arena.edit b change after = .ok () edited ∧
        edited.audit graph.members (some linked.items) ≠ [] := by
  intro b member change fits
  obtain ⟨first, built⟩ := built_of_listed fresh listed links constructed
  obtain ⟨items, chained, -⟩ := linked_of_fresh fresh listed links
  have once : linked.items.Nodup := items ▸ Listing.nodup_of_rising chained.rising
  obtain ⟨formed, covers⟩ := (Arena.audit_some_eq_nil_iff once).mp clean
  have bound := built.membership.lt_size b member
  have parents := built.linkage.parents b member
  obtain ⟨new, found, broken⟩ := formed.edited bound covers member parents fits
  refine ⟨_, Arena.edit_of_some found, ?_⟩
  exact fun still => broken ((Arena.audit_some_eq_nil_iff once).mp still)

/-- A call, and a loop that ends in a return. Control reaches all of it. -/
def Arena.callingLoop : Arena 5 where
  instrs := #v[
    { address := 0, opcode := .jsr, targets := [16] },
    { address := 6, opcode := .const },
    { address := 8, opcode := .jz, targets := [6] },
    { address := 14, opcode := .retn },
    { address := 16, opcode := .retn }]

/-- The loop is a parent of itself. Listing it as one a second time shows. -/
theorem Graph.audit_edited_callingLoop :
    ∃ listing linked code graph after edited,
      (∀ i ∈ List.finRange 5, (Arena.callingLoop.instr i).IsFresh) ∧
      Listing.ofList Arena.callingLoop (List.finRange 5) = .ok listing ∧
      listing.link Arena.callingLoop = .ok linked code ∧
      construct linked.items code = .ok graph after ∧
      after.audit graph.members (some linked.items) = [] ∧
      2 ∈ graph.members ∧ (after.block 2).parents = [0, 2] ∧
      Arena.edit 2 (.pushParent 2) after = .ok () edited ∧
      edited.audit graph.members (some linked.items) ≠ [] := by
  have fresh : ∀ i ∈ List.finRange 5, (Arena.callingLoop.instr i).IsFresh := by decide
  have runs : (match (⟨List.finRange 5, false⟩ : Listing 5).link Arena.callingLoop with
      | .error .. => false
      | .ok linked code =>
          match construct linked.items code with
          | .error .. => false
          | .ok graph after => decide (after.auditCoverage graph.members linked.items = [] ∧
              2 ∈ graph.members ∧ (after.block 2).parents = [0, 2])) = true := by
    decide +kernel
  cases links : (⟨List.finRange 5, false⟩ : Listing 5).link Arena.callingLoop with
  | error fault code => rw [links] at runs; cases runs
  | ok linked code =>
      simp only [links] at runs
      cases constructed : construct linked.items code with
      | error fault after => rw [constructed] at runs; cases runs
      | ok graph after =>
          simp only [constructed, decide_eq_true_eq] at runs
          obtain ⟨covered, loops, parents⟩ := runs
          obtain ⟨first, built⟩ := built_of_listed fresh rfl links constructed
          have clean : after.audit graph.members (some linked.items) = [] := by
            rw [built.consistent.audit_some, covered]
          obtain ⟨edited, ran, shows⟩ :=
            audit_edited fresh rfl links constructed clean 2 loops (.pushParent 2) loops
          exact ⟨_, linked, code, graph, after, edited, fresh, rfl, links, constructed, clean,
            loops, parents, ran, shows⟩

end ScriptFlow
