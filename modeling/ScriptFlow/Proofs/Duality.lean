import ScriptFlow.Proofs.Coherence
import ScriptFlow.Proofs.Neighbours

/-!
# Children and parents

A block lists its children and the blocks that it is a child of, and of both it can be asked
which stand earlier and which do not, with calls or without. The two ends of an edge agree:
a child is found as often as its parent is found from there, since both look up the kind of
the first edge between them (`Arena.firstOwn`), and what is earlier seen from one end is not
seen from the other.

That the kind can be looked up, and that both ends list an edge equally often, is coherence
of the arena. So `Session.neighbours_dual_of_perform` holds after any changes to it, whether
edges are added by hand or by construction, repeated, led back to their block or marked as
dead.
-/

namespace ScriptFlow

variable {n : Nat}

/-- The third list is made of the first two, each of which keeps its order. -/
inductive Interleaves {α : Type} : List α → List α → List α → Prop
  | nil : Interleaves [] [] []
  | left {xs ys zs : List α} (x : α) : Interleaves xs ys zs → Interleaves (x :: xs) ys (x :: zs)
  | right {xs ys zs : List α} (y : α) : Interleaves xs ys zs → Interleaves xs (y :: ys) (y :: zs)

/-- A list is made of the entries that are kept and of the others. -/
theorem interleaves_filter {α : Type} {keep drop : α → Bool} {entries : List α}
    (apart : ∀ x ∈ entries, drop x = !keep x) :
    Interleaves (entries.filter keep) (entries.filter drop) entries := by
  induction entries with
  | nil => exact .nil
  | cons x rest ih =>
      rw [List.forall_mem_cons] at apart
      rw [List.filter_cons, List.filter_cons, apart.1]
      cases keep x with
      | true => exact .left x (ih apart.2)
      | false => exact .right x (ih apart.2)

namespace Arena

variable {arena : Arena n} {b c : BlockId}

section Coherent

variable (sound : arena.Coherent)

include sound

theorem Coherent.mem_children_of_mem_parents (parent : b ∈ (arena.block c).parents) :
    c ∈ (arena.block b).children := by
  rw [← List.count_pos_iff, sound.paired, List.count_pos_iff]
  exact parent

theorem Coherent.selectChildren_eq (b : BlockId) (among : Address → Bool) (subroutines : Bool) :
    arena.selectChildren b among subroutines = .ok (arena.keptChildren b among subroutines) :=
  selectChildren_eq_ok among subroutines (sound.kinds b)

theorem Coherent.selectParents_eq (b : BlockId) (among : Address → Bool) (subroutines : Bool) :
    arena.selectParents b among subroutines = .ok (arena.keptParents b among subroutines) :=
  selectParents_eq_ok among subroutines fun p parent =>
    ⟨sound.kinds p, sound.mem_children_of_mem_parents parent⟩

/-- An edge is kept at one end, by the place of the child, as often as at the other, by the
place of the parent. -/
theorem Coherent.count_kept {above below : Address → Bool} (subroutines : Bool)
    (same : above (arena.address c) = below (arena.address b)) :
    (arena.keptChildren b above subroutines).count c =
      (arena.keptParents c below subroutines).count b := by
  rw [keptChildren, keptParents, count_filter_eq, count_filter_eq, same, sound.paired]

end Coherent

end Arena

/-- **Duality.** From an arena without blocks, any changes, failed ones included, lead to one
where the children and the parents of a block can be asked for, and where an edge is answered
for at both of its ends equally often. With calls, the children that stand earlier and those
that do not make up all of them in order, and so do the parents. -/
theorem Session.neighbours_dual_of_perform {arena : Arena n}
    (free : ∀ i, arena.owner i = none) (bare : arena.blocks = #[]) (run : List (Mutation n))
    (subroutines : Bool) :
    let reached := (({ arena } : Session n).perform run).arena
    ∃ earlierChildren laterChildren earlierParents laterParents : BlockId → List BlockId,
      (∀ b, reached.earlierChildren b subroutines = .ok (earlierChildren b) ∧
        reached.laterChildren b subroutines = .ok (laterChildren b) ∧
        reached.earlierParents b subroutines = .ok (earlierParents b) ∧
        reached.laterParents b subroutines = .ok (laterParents b)) ∧
      (∀ b c,
        (reached.address c < reached.address b →
          (earlierChildren b).count c = (laterParents c).count b) ∧
        (reached.address b < reached.address c →
          (laterChildren b).count c = (earlierParents c).count b) ∧
        (reached.address b = reached.address c →
          (laterChildren b).count c = (laterParents c).count b)) ∧
      (subroutines = true → ∀ b,
        Interleaves (earlierChildren b) (laterChildren b) (reached.block b).children ∧
        Interleaves (earlierParents b) (laterParents b) (reached.block b).parents) := by
  intro reached
  have sound : reached.Coherent := (upholds_perform run { arena }).arena.coherent
    (Arena.grounded_of_unowned free) (Arena.coherent_of_bare bare)
  refine ⟨_, _, _, _, fun b => ⟨sound.selectChildren_eq .., sound.selectChildren_eq ..,
    sound.selectParents_eq .., sound.selectParents_eq ..⟩, fun b c => ⟨?_, ?_, ?_⟩, ?_⟩
  · intro earlier
    apply sound.count_kept
    rw [decide_eq_true earlier, decide_eq_true (Int.le_of_lt earlier)]
  · intro later
    apply sound.count_kept
    rw [decide_eq_true later, decide_eq_true (Int.le_of_lt later)]
  · intro level
    apply sound.count_kept
    rw [decide_eq_true (Int.le_of_eq level), decide_eq_true (Int.le_of_eq level.symm)]
  · rintro rfl b
    have apart : ∀ c, decide (reached.address b ≤ reached.address c) =
        !decide (reached.address c < reached.address b) := by
      intro c
      rw [← decide_not, decide_eq_decide, Int.not_lt]
    exact ⟨interleaves_filter fun c _ => apart c, interleaves_filter fun p _ => apart p⟩

/-- Of two edges to one block the first one answers. It is no call, so both are kept, at
either end. -/
theorem Session.neighbours_dual_of_perform_contested :
    let run := [.addBlock 20, .addBlock 20, .addChild 0 0 .storeState,
      .addChild 0 1 .unconditional, .addChild 0 1 .functionCall, .construct [2],
      .addChild 0 2 .functionCall, .tagDeadEdges [0, 1, 2]]
    let reached := (({ arena := Arena.contested } : Session 4).perform run).arena
    (∀ i, Arena.contested.owner i = none) ∧ Arena.contested.blocks = #[] ∧
      (reached.block 0).children = [0, 1, 1, 2] ∧
      (reached.block 0).kinds = [.storeState, .unconditional, .functionCall, .functionCall] ∧
      reached.address 0 = reached.address 1 ∧
      ∃ children parents, reached.laterChildren 0 false = .ok children ∧
        reached.laterParents 1 false = .ok parents ∧ children = [1, 1] ∧
        children.count 1 = parents.count 0 := by
  intro run reached
  have free : ∀ i, Arena.contested.owner i = none := by decide
  have made : (reached.block 0).children = [0, 1, 1, 2] ∧
      (reached.block 0).kinds = [.storeState, .unconditional, .functionCall, .functionCall] ∧
      reached.address 0 = reached.address 1 ∧
      reached.laterChildren 0 false = .ok [1, 1] := by decide +kernel
  obtain ⟨children, kinds, level, found⟩ := made
  obtain ⟨_, laterChildren, _, laterParents, answers, counts, -⟩ :=
    neighbours_dual_of_perform free rfl run false
  have same := (answers 0).2.1.symm.trans found
  exact ⟨free, rfl, children, kinds, level, laterChildren 0, laterParents 1, (answers 0).2.1,
    (answers 1).2.2.2, Except.ok.inj same, (counts 0 1).2.2 level⟩

end ScriptFlow
