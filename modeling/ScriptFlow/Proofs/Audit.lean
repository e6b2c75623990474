import Mathlib.Data.List.Nodup
import ScriptFlow.Graph.Audit

/-!
# What an audit accepts

`Arena.Consistent` says of blocks what an audit without a sequence checks, by relations
between the fields of blocks and instructions. `Arena.audit_eq_nil_iff` says that the
audit decides it: each part of an audit is empty just if its relation holds.
-/

namespace ScriptFlow.Arena

variable {n : Nat} {arena : Arena n} {blocks : List BlockId} {b : BlockId}

/-- Blocks without a structural problem. -/
structure Consistent (arena : Arena n) (blocks : List BlockId) : Prop where
  distinct : (blocks.map arena.address).Nodup
  starts : ∀ b ∈ blocks, ∃ i, (arena.block b).instrs.head? = some i ∧
    (arena.instr i).address = arena.address b
  kinds : ∀ b ∈ blocks, (arena.block b).children.length = (arena.block b).kinds.length
  children : ∀ b ∈ blocks, ∀ c ∈ (arena.block b).children, c ∈ blocks ∧
    (arena.block c).parents.count b = (arena.block b).children.count c
  parents : ∀ b ∈ blocks, ∀ p ∈ (arena.block b).parents, b ∈ (arena.block p).children
  owned : ∀ b ∈ blocks, ∀ i ∈ (arena.block b).instrs, arena.owner i = some b
  once : (blocks.flatMap fun b => (arena.block b).instrs).Nodup

/-! ## Single blocks -/

/-- No line on addresses: all blocks stand at different ones. -/
theorem auditAddresses_eq_nil_iff :
    arena.auditAddresses blocks = [] ↔ (blocks.map arena.address).Nodup := by
  rw [List.nodup_iff_count_le_one, auditAddresses, List.filterMap_eq_nil_iff]
  constructor
  · intro single address
    by_cases used : address ∈ blocks.map arena.address
    · have here := single address (List.mem_mergeSort.mpr (List.mem_eraseDups.mpr used))
      simpa using here
    · rw [List.count_eq_zero.mpr used]
      exact Nat.zero_le 1
  · intro single address _
    simp [Nat.not_lt.mpr (single address)]

/-- No line on the start of a block: it stands where its first instruction does. -/
theorem auditStart_eq_nil_iff :
    arena.auditStart b = [] ↔ ∃ i, (arena.block b).instrs.head? = some i ∧
      (arena.instr i).address = arena.address b := by
  unfold auditStart
  cases (arena.block b).instrs with
  | nil => simp
  | cons i rest => simp

theorem auditKinds_eq_nil_iff :
    arena.auditKinds b = [] ↔
      (arena.block b).children.length = (arena.block b).kinds.length := by
  simp [auditKinds]

/-- No line on a child: it is one of the blocks, and both ends count the same edges. -/
theorem auditChild_eq_nil_iff {c : BlockId} :
    arena.auditChild blocks b c = [] ↔ c ∈ blocks ∧
      (arena.block c).parents.count b = (arena.block b).children.count c := by
  simp [auditChild]

theorem auditParent_eq_nil_iff {p : BlockId} :
    arena.auditParent b p = [] ↔ b ∈ (arena.block p).children := by
  simp [auditParent]

/-- No line on the edges of a block: none on their kinds, the children, or the parents. -/
theorem auditEdges_eq_nil_iff :
    arena.auditEdges blocks b = [] ↔
      (arena.block b).children.length = (arena.block b).kinds.length ∧
      (∀ c ∈ (arena.block b).children, c ∈ blocks ∧
        (arena.block c).parents.count b = (arena.block b).children.count c) ∧
      ∀ p ∈ (arena.block b).parents, b ∈ (arena.block p).children := by
  simp only [auditEdges, List.append_eq_nil_iff, List.flatMap_eq_nil_iff,
    auditKinds_eq_nil_iff, auditChild_eq_nil_iff, auditParent_eq_nil_iff, and_assoc]

/-! ## Ownership -/

theorem listedBy?_eq_none_iff {seen : List (Entry n)} {i : Fin n} :
    listedBy? seen i = none ↔ i ∉ seen.map (·.1) := by
  rw [listedBy?, Option.map_eq_none_iff, List.find?_eq_none]
  constructor
  · intro absent listed
    obtain ⟨entry, member, rfl⟩ := List.mem_map.mp listed
    exact absent entry member (by simp)
  · intro unlisted entry member same
    exact unlisted (of_decide_eq_true same ▸ List.mem_map_of_mem member)

/-- No line on an entry: the block owns the instruction, and it is the first to list it. -/
theorem auditEntry_eq_nil_iff {seen : List (Entry n)} {i : Fin n} :
    arena.auditEntry seen (i, b) = [] ↔ arena.owner i = some b ∧ i ∉ seen.map (·.1) := by
  rw [← listedBy?_eq_none_iff, auditEntry, List.append_eq_nil_iff]
  cases listedBy? seen i <;> simp

/-- No line on a run of entries: each is owned by its block and none is listed twice or has been
seen. -/
theorem auditEntries_eq_nil_iff {seen entries : List (Entry n)} :
    arena.auditEntries seen entries = [] ↔
      (∀ entry ∈ entries, arena.owner entry.1 = some entry.2) ∧
      (entries.map (·.1)).Nodup ∧
      ∀ entry ∈ entries, entry.1 ∉ seen.map (·.1) := by
  induction entries generalizing seen with
  | nil => simp [auditEntries]
  | cons entry rest ih =>
      obtain ⟨i, b⟩ := entry
      rw [auditEntries, List.append_eq_nil_iff, auditEntry_eq_nil_iff, ih]
      simp only [List.mem_cons, forall_eq_or_imp, List.map_cons, List.nodup_cons, not_or]
      constructor
      · intro clean
        obtain ⟨⟨owned, unseen⟩, others, once, new⟩ := clean
        refine ⟨⟨owned, others⟩, ⟨?_, once⟩, unseen, fun entry later => (new entry later).2⟩
        intro again
        obtain ⟨entry, later, same⟩ := List.mem_map.mp again
        exact (new entry later).1 same
      · intro clean
        obtain ⟨⟨owned, others⟩, ⟨single, once⟩, unseen, new⟩ := clean
        refine ⟨⟨owned, unseen⟩, others, once, fun entry later => ⟨?_, new entry later⟩⟩
        intro same
        exact single (same ▸ List.mem_map_of_mem later)

theorem map_fst_entries (arena : Arena n) (b : BlockId) :
    (arena.entries b).map (·.1) = (arena.block b).instrs := by
  simp [entries, Function.comp_def]

theorem auditEntries_entries_eq_nil_iff {seen : List (Entry n)} :
    arena.auditEntries seen (arena.entries b) = [] ↔
      (∀ i ∈ (arena.block b).instrs, arena.owner i = some b) ∧
      (arena.block b).instrs.Nodup ∧
      ∀ i ∈ (arena.block b).instrs, i ∉ seen.map (·.1) := by
  rw [auditEntries_eq_nil_iff, map_fst_entries]
  simp only [entries, List.forall_mem_map]

/-- The blocks of an audit are gone through one after the other, with the instructions
of those before in view. -/
theorem auditBlocks_eq_nil_iff {seen : List (Entry n)} {rest : List BlockId} :
    arena.auditBlocks blocks seen rest = [] ↔
      (∀ b ∈ rest, arena.auditStart b = [] ∧ arena.auditEdges blocks b = [] ∧
        ∀ i ∈ (arena.block b).instrs, arena.owner i = some b) ∧
      (rest.flatMap fun b => (arena.block b).instrs).Nodup ∧
      ∀ i ∈ rest.flatMap (fun b => (arena.block b).instrs), i ∉ seen.map (·.1) := by
  induction rest generalizing seen with
  | nil => simp [auditBlocks]
  | cons b rest ih =>
      simp only [auditBlocks, List.append_eq_nil_iff, auditEntries_entries_eq_nil_iff, ih,
        List.map_append, List.map_reverse, map_fst_entries, List.mem_append,
        List.mem_reverse, List.flatMap_cons, List.nodup_append', List.forall_mem_cons,
        or_imp, forall_and, not_or]
      constructor
      · intro clean
        obtain ⟨⟨⟨start, edges⟩, owned, once, unseen⟩, ⟨starts, others, owners⟩, later,
          apart, new⟩ := clean
        exact ⟨⟨⟨start, starts⟩, ⟨edges, others⟩, owned, owners⟩,
          ⟨once, later, fun i here there => apart i there here⟩, unseen, new⟩
      · intro clean
        obtain ⟨⟨⟨start, starts⟩, ⟨edges, others⟩, owned, owners⟩, ⟨once, later, apart⟩,
          unseen, new⟩ := clean
        exact ⟨⟨⟨start, edges⟩, owned, once, unseen⟩, ⟨starts, others, owners⟩, later,
          fun i there here => apart here there, new⟩

/-! ## The whole audit -/

/-- **Audits decide consistency.** An audit finds nothing just if the blocks are
consistent. -/
theorem audit_eq_nil_iff : arena.audit blocks = [] ↔ arena.Consistent blocks := by
  have parts : arena.audit blocks = [] ↔
      arena.auditAddresses blocks = [] ∧ arena.auditBlocks blocks [] blocks = [] := by
    simp [audit]
  rw [parts, auditAddresses_eq_nil_iff, auditBlocks_eq_nil_iff]
  constructor
  · intro clean
    obtain ⟨distinct, single, once, -⟩ := clean
    have edges := fun b member => auditEdges_eq_nil_iff.mp (single b member).2.1
    exact
      { distinct, once
        starts := fun b member => auditStart_eq_nil_iff.mp (single b member).1
        kinds := fun b member => (edges b member).1
        children := fun b member => (edges b member).2.1
        parents := fun b member => (edges b member).2.2
        owned := fun b member => (single b member).2.2 }
  · intro sound
    refine ⟨sound.distinct, ?_, sound.once, by simp⟩
    intro b member
    refine ⟨auditStart_eq_nil_iff.mpr (sound.starts b member), ?_, sound.owned b member⟩
    exact auditEdges_eq_nil_iff.mpr
      ⟨sound.kinds b member, sound.children b member, sound.parents b member⟩

end ScriptFlow.Arena
