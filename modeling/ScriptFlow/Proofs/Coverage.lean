import Mathlib.Data.List.Forall2
import ScriptFlow.Proofs.Audit

/-!
# What an audit decides

An audit looks at an edge from the block that lists it, and at an instruction from the
entries seen before it. `Arena.WellFormed` says of a list of blocks, all at once, what this
adds up to: two blocks agree on the edges between them, listed or not, and no instruction is
listed twice. `Arena.Covers` says how the blocks lie in a sequence that they are to cover.

`Arena.audit_decides` is the whole of it: an audit finds nothing just if the blocks are well
formed and, where a sequence is given, cover it.
-/

namespace ScriptFlow.Arena

variable {n : Nat} {arena : Arena n} {blocks : List BlockId} {b : BlockId}
  {sequence : List (Fin n)}

/-- Blocks that form a graph. Edges lead to blocks of the graph, and any two blocks record
the same number of edges from the one to the other; a parent that is no block of the graph has
an edge to the block all the same. Instructions belong to the block that lists them. -/
structure WellFormed (arena : Arena n) (blocks : List BlockId) : Prop where
  apart : (blocks.map arena.address).Nodup
  starts : ∀ b ∈ blocks, ∃ i, (arena.block b).instrs.head? = some i ∧
    (arena.instr i).address = arena.address b
  kinds : ∀ b ∈ blocks, (arena.block b).children.length = (arena.block b).kinds.length
  closed : ∀ b ∈ blocks, ∀ c ∈ (arena.block b).children, c ∈ blocks
  paired : ∀ b ∈ blocks, ∀ c ∈ blocks,
    (arena.block b).children.count c = (arena.block c).parents.count b
  answered : ∀ b ∈ blocks, ∀ p ∈ (arena.block b).parents, b ∈ (arena.block p).children
  owned : ∀ b ∈ blocks, ∀ i ∈ (arena.block b).instrs, arena.owner i = some b
  once : (blocks.flatMap fun b => (arena.block b).instrs).Nodup

/-- The blocks list every instruction of the sequence, and each of them is a segment of it. -/
structure Covers (arena : Arena n) (blocks : List BlockId) (sequence : List (Fin n)) :
    Prop where
  listed : ∀ i ∈ sequence, ∃ b ∈ blocks, i ∈ (arena.block b).instrs
  segment : ∀ b ∈ blocks, (arena.block b).instrs <:+: sequence

/-- An audit asks about edges that are listed only, and that is enough: a block that is no
child of another cannot list it as a parent. -/
theorem consistent_iff_wellFormed : arena.Consistent blocks ↔ arena.WellFormed blocks := by
  constructor
  · intro sound
    refine
      { apart := sound.distinct, starts := sound.starts, kinds := sound.kinds,
        closed := fun b member c child => (sound.children b member c child).1,
        paired := ?_, answered := sound.parents, owned := sound.owned, once := sound.once }
    intro b _ c member
    by_cases child : c ∈ (arena.block b).children
    · exact (sound.children b ‹_› c child).2.symm
    · have stranger : b ∉ (arena.block c).parents := fun parent =>
        child (sound.parents c member b parent)
      rw [List.count_eq_zero.mpr child, List.count_eq_zero.mpr stranger]
  · intro formed
    refine
      { distinct := formed.apart, starts := formed.starts, kinds := formed.kinds,
        children := ?_, parents := formed.answered, owned := formed.owned, once := formed.once }
    intro b member c child
    have known := formed.closed b member c child
    exact ⟨known, (formed.paired b member c known).symm⟩

/-! ## Places in a sequence -/

theorem position?_eq_some_iff (once : sequence.Nodup) {i : Fin n} {place : Nat} :
    position? sequence i = some place ↔ sequence[place]? = some i := by
  have stands : ∀ entry ∈ sequence.zipIdx.reverse, sequence[entry.2]? = some entry.1 := by
    intro entry listed
    exact List.mem_zipIdx_iff_getElem?.mp (List.mem_reverse.mp listed)
  rw [position?, Option.map_eq_some_iff]
  constructor
  · rintro ⟨entry, found, rfl⟩
    have same : entry.1 = i := by simpa using List.find?_some found
    rw [← same]
    exact stands entry (List.mem_of_find?_eq_some found)
  · intro here
    have listed : (i, place) ∈ sequence.zipIdx.reverse :=
      List.mem_reverse.mpr (List.mk_mem_zipIdx_iff_getElem?.mpr here)
    cases found : sequence.zipIdx.reverse.find? fun entry => entry.1 = i with
    | none => exact (List.find?_eq_none.mp found _ listed (decide_eq_true rfl)).elim
    | some entry =>
        have same : entry.1 = i := by simpa using List.find?_some found
        have there := stands entry (List.mem_of_find?_eq_some found)
        obtain ⟨bound, -⟩ := List.getElem?_eq_some_iff.mp there
        rw [same] at there
        exact ⟨entry, rfl, (List.getElem?_inj bound once).mp (there.trans here.symm)⟩

theorem mapM_position?_eq_some_iff (once : sequence.Nodup) {run : List (Fin n)}
    {places : List Nat} :
    run.mapM (position? sequence) = some places ↔
      List.Forall₂ (fun i place => sequence[place]? = some i) run places := by
  induction run generalizing places with
  | nil => simp [eq_comm]
  | cons i rest ih =>
      simp only [List.mapM_cons, Option.bind_eq_bind, Option.bind_eq_some_iff,
        position?_eq_some_iff once, ih, Option.pure_def, Option.some.injEq,
        List.forall₂_cons_left_iff]
      constructor
      · rintro ⟨place, here, others, run, rfl⟩
        exact ⟨place, others, here, run, rfl⟩
      · rintro ⟨place, others, here, run, rfl⟩
        exact ⟨place, here, others, run, rfl⟩

/-- Instructions that stand in places one after the other are what the sequence goes on with
from the first of them. -/
theorem forall₂_range'_iff {run : List (Fin n)} {start : Nat} :
    List.Forall₂ (fun i place => sequence[place]? = some i) run
        (List.range' start run.length) ↔ run <+: sequence.drop start := by
  induction run generalizing start with
  | nil => simp
  | cons i rest ih =>
      rw [List.length_cons, List.range'_succ, List.forall₂_cons, ih]
      by_cases bound : start < sequence.length
      · rw [List.drop_eq_getElem_cons bound, List.cons_prefix_cons,
          List.getElem?_eq_getElem bound, Option.some.injEq, eq_comm]
      · have beyond := Nat.le_of_not_lt bound
        simp [List.getElem?_eq_none beyond, List.drop_eq_nil_of_le beyond]

/-- A run is a segment just if its instructions stand in places one after the other. -/
theorem infix_iff_places (once : sequence.Nodup) {run : List (Fin n)} :
    run <:+: sequence ↔
      ∃ start, run.mapM (position? sequence) = some (List.range' start run.length) := by
  simp only [mapM_position?_eq_some_iff once, forall₂_range'_iff]
  constructor
  · rintro ⟨front, back, rfl⟩
    exact ⟨front.length, by simp⟩
  · rintro ⟨start, begins⟩
    exact begins.isInfix.trans (List.drop_suffix start sequence).isInfix

/-! ## Coverage -/

theorem auditRun_eq_nil_iff (once : sequence.Nodup) :
    arena.auditRun sequence b = [] ↔ (arena.block b).instrs <:+: sequence := by
  rw [infix_iff_places once]
  unfold auditRun
  generalize (arena.block b).instrs = run
  cases run with
  | nil => simp
  | cons i rest =>
      cases found : (i :: rest).mapM (position? sequence) with
      | none => simp
      | some places =>
          have length := ((mapM_position?_eq_some_iff once).mp found).length_eq
          match places, length with
          | first :: others, length =>
              have same : others.length = rest.length := by simpa using length.symm
              simp only [Option.some.injEq, List.length_cons, List.range'_succ,
                List.cons.injEq, same]
              constructor
              · intro clean
                refine ⟨first, rfl, ?_⟩
                by_contra scattered
                rw [if_neg scattered] at clean
                cases clean
              · rintro ⟨start, rfl, follow⟩
                rw [if_pos follow]

theorem auditCoverage_eq_nil_iff (once : sequence.Nodup) :
    arena.auditCoverage blocks sequence = [] ↔ arena.Covers blocks sequence := by
  simp only [auditCoverage, List.append_eq_nil_iff, List.map_eq_nil_iff,
    List.filter_eq_nil_iff, List.flatMap_eq_nil_iff, auditRun_eq_nil_iff once,
    List.mem_flatMap, decide_eq_true_eq, not_not]
  exact ⟨fun both => ⟨both.1, both.2⟩, fun covers => ⟨covers.listed, covers.segment⟩⟩

/-- An audit of a sequence goes on where one of the blocks alone ends. -/
theorem audit_some (arena : Arena n) (blocks : List BlockId) (sequence : List (Fin n)) :
    arena.audit blocks (some sequence) =
      arena.audit blocks ++ arena.auditCoverage blocks sequence := by
  simp [audit]

theorem audit_some_eq_nil_iff (once : sequence.Nodup) :
    arena.audit blocks (some sequence) = [] ↔
      arena.WellFormed blocks ∧ arena.Covers blocks sequence := by
  rw [audit_some, List.append_eq_nil_iff, audit_eq_nil_iff, consistent_iff_wellFormed,
    auditCoverage_eq_nil_iff once]

/-- **Audits decide well-formedness.** Whatever the blocks and the instructions refer to, an
audit finds nothing just if the blocks are well formed and cover the sequence, if one is
given. -/
theorem audit_decides (arena : Arena n) (blocks : List BlockId)
    (sequence : Option (List (Fin n))) (once : ∀ items ∈ sequence, items.Nodup) :
    arena.audit blocks sequence = [] ↔
      arena.WellFormed blocks ∧ ∀ items ∈ sequence, arena.Covers blocks items := by
  cases sequence with
  | none => simp [audit_eq_nil_iff, consistent_iff_wellFormed]
  | some items => simpa using audit_some_eq_nil_iff (once items rfl)

/-- A block that leads to itself and on, between two others. -/
def looping : Arena 3 where
  instrs := #v[
    { address := 0, opcode := .nop, follower := some 1, block := some 0 },
    { address := 2, opcode := .jz, branches := [1, 2], follower := some 2, block := some 1 },
    { address := 8, opcode := .retn, block := some 2 }]
  blocks := #[
    { address := 0, instrs := [0], children := [1], kinds := [.unconditional] },
    { address := 2, instrs := [1], parents := [0, 1], children := [1, 2],
      kinds := [.conditionalTrue, .conditionalFalse] },
    { address := 8, instrs := [2], parents := [1] }]

/-- Nothing is wrong with the three blocks, in whatever order they are given; without the
last of them an edge leads out of the graph. -/
theorem audit_decides_looping :
    (∀ items ∈ some [0, 1, 2], (items : List (Fin 3)).Nodup) ∧
      looping.audit [1, 2, 0] (some [0, 1, 2]) = [] ∧
      looping.audit [1, 0] (some [0, 1, 2]) ≠ [] := by
  have once : ∀ items ∈ some [0, 1, 2], (items : List (Fin 3)).Nodup := by simp
  refine ⟨once, ?_, ?_⟩
  · refine (audit_decides looping [1, 2, 0] (some [0, 1, 2]) once).mpr ⟨?_, ?_⟩
    · constructor <;> decide +kernel
    · rintro items ⟨⟩
      constructor <;> decide +kernel
  · intro clean
    have formed := ((audit_decides looping [1, 0] (some [0, 1, 2]) once).mp clean).1
    have inside := formed.closed 1 (by decide) 2 (by decide +kernel)
    revert inside
    decide

end ScriptFlow.Arena
