import Mathlib.Data.List.Sort
import ScriptFlow.Proofs.Consistency

/-!
# Blocks partition the instructions that can be reached

After linking, the follower of an instruction is the next one of the listing, and an edge
of a jump or call leads to a leader or to the follower (`Arena.Linked`). So the blocks of
the graph (`Arena.Built`) are segments of the listing:

* an instruction that can be reached starts its block just if it is a leader or stands
  after an instruction that ends one (`Arena.Built.head_iff`);
* a block holds no instruction between two others of it, so the blocks by rising address
  list what can be reached in program order (`Arena.Built.pairwise_ordered`).
-/

namespace ScriptFlow

variable {n : Nat}

/-! ## Listings -/

namespace Arena.Linked

variable {code : Arena n} {items : List (Fin n)} {i j p q : Fin n}

theorem address_lt (linked : code.Linked items) (next : [i, j] <:+: items) :
    (code.instr i).address < (code.instr j).address := by
  have rising := linked.rising.sublist next.sublist
  simpa using rising

/-- No instruction of a listing stands between two neighbours. -/
theorem le_or_le (linked : code.Linked items) (next : [i, j] <:+: items) (listed : p ∈ items) :
    (code.instr p).address ≤ (code.instr i).address ∨
      (code.instr j).address ≤ (code.instr p).address := by
  obtain ⟨front, back, split⟩ := next
  have rising := linked.rising
  rw [← split, List.append_assoc, List.pairwise_append] at rising
  obtain ⟨-, later, below⟩ := rising
  rw [List.cons_append, List.pairwise_cons] at later
  rw [← split, List.append_assoc] at listed
  rcases List.mem_append.mp listed with before | here
  · exact .inl (Int.le_of_lt (below p before i List.mem_cons_self))
  · rcases List.mem_cons.mp here with rfl | here
    · exact .inl (Int.le_refl _)
    · right
      rcases List.mem_cons.mp here with rfl | after
      · exact Int.le_refl _
      · exact Int.le_of_lt ((List.pairwise_cons.mp later.2).1 p after)

theorem eq_of_address (linked : code.Linked items) (left : p ∈ items) (right : q ∈ items)
    (same : (code.instr p).address = (code.instr q).address) : p = q :=
  Listing.eq_of_rising linked.rising left right same

/-- An instruction stands after one other. -/
theorem eq_of_next (linked : code.Linked items) (left : [p, i] <:+: items)
    (right : [q, i] <:+: items) : p = q := by
  have listed : p ∈ items := left.subset (by simp)
  have other : q ∈ items := right.subset (by simp)
  have low : (code.instr p).address ≤ (code.instr q).address :=
    (linked.le_or_le right listed).resolve_right (Int.not_le.mpr (linked.address_lt left))
  have high : (code.instr q).address ≤ (code.instr p).address :=
    (linked.le_or_le left other).resolve_right (Int.not_le.mpr (linked.address_lt right))
  exact linked.eq_of_address listed other (Int.le_antisymm low high)

theorem mem_of_follower (linked : code.Linked items) (listed : i ∈ items)
    (follower : (code.instr i).follower = some j) : j ∈ items :=
  ((linked.follower i listed j).mp follower).subset (by simp)

end Arena.Linked

/-- Control goes on to a branch or to the follower. -/
theorem Instruction.mem_successors {instr : Instruction n} {j : Fin n}
    (next : j ∈ instr.successors) :
    (j ∈ instr.branches ∧ instr.opcode.branchKind? ≠ none) ∨ instr.follower = some j := by
  by_cases ends : instr.opcode.endsBlock = true
  · unfold successors at next
    rcases Opcode.endsBlock_iff.mp ends with same | same | same | same | same | same <;>
      rw [same] at next ⊢
    · exact .inl ⟨List.mem_of_mem_take next, nofun⟩
    · exact .inl ⟨List.mem_of_mem_take next, nofun⟩
    · exact .inl ⟨List.mem_of_mem_take next, nofun⟩
    · rcases List.mem_append.mp next with target | follower
      · exact .inl ⟨List.mem_of_mem_take target, nofun⟩
      · exact .inr (Option.mem_toList.mp follower)
    · rcases List.mem_append.mp next with target | follower
      · exact .inl ⟨List.mem_of_mem_take target, nofun⟩
      · exact .inr (Option.mem_toList.mp follower)
    · cases next
  · rw [successors_of_not_endsBlock (Bool.eq_false_iff.mpr ends)] at next
    exact .inr (Option.mem_toList.mp next)

namespace Arena.Linked

variable {code : Arena n} {items : List (Fin n)} {i j first : Fin n}

/-- Control goes on to a leader or to the next instruction. -/
theorem leader_or_next (linked : code.Linked items) (listed : i ∈ items)
    (flows : code.Flows i j) :
    (code.instr j).isLeader = true ∨ (code.instr i).follower = some j := by
  rcases Instruction.mem_successors flows with ⟨branch, used⟩ | follower
  · exact (linked.branches i listed j branch).imp_left fun leads => leads.2 used
  · exact .inr follower

theorem mem_of_flows (linked : code.Linked items) (listed : i ∈ items)
    (flows : code.Flows i j) : j ∈ items := by
  rcases Instruction.mem_successors flows with ⟨branch, -⟩ | follower
  · rcases linked.branches i listed j branch with ⟨known, -⟩ | follower
    · exact known
    · exact linked.mem_of_follower listed follower
  · exact linked.mem_of_follower listed follower

theorem mem_of_reaches (linked : code.Linked items) (entry : first ∈ items)
    (reached : code.Reaches first i) : i ∈ items := by
  induction reached with
  | refl => exact entry
  | tail _ flows ih => exact linked.mem_of_flows ih flows

end Arena.Linked

/-- What a block starts with is a leader, or stands after an instruction that ends a
block. -/
theorem Arena.Linked.leader_or_ends {code : Arena n} {items : List (Fin n)} {first i : Fin n}
    (linked : code.Linked items) (entry : items.head? = some first)
    (opens : code.Opens first i) :
    (code.instr i).isLeader = true ∨
      ∃ p, [p, i] <:+: items ∧ (code.instr p).opcode.endsBlock = true := by
  cases opens with
  | entry => exact .inl (linked.entry first entry)
  | leader leads => exact .inl leads
  | @exit z _ reached ends flows =>
      have listed := linked.mem_of_reaches (List.mem_of_mem_head? entry) reached
      rcases linked.leader_or_next listed flows with leads | follower
      · exact .inl leads
      · exact .inr ⟨z, (linked.follower z listed i).mp follower, ends⟩

/-! ## Blocks are segments -/

namespace Arena.Built

variable {code after : Arena n} {items : List (Fin n)} {first : Fin n} {graph : Graph}
  {b c : BlockId} {i j : Fin n}

theorem mem_items (built : code.Built first graph after) (linked : code.Linked items)
    (entry : first ∈ items) (member : b ∈ graph.members)
    (listed : i ∈ (after.block b).instrs) : i ∈ items :=
  linked.mem_of_reaches entry (built.ownership.listed b member i listed).2

/-- An instruction of a block is its first one, or one with which another continues. -/
theorem head_or_continues (built : code.Built first graph after) (member : b ∈ graph.members)
    (listed : i ∈ (after.block b).instrs) :
    (after.block b).instrs.head? = some i ∨
      ∃ front q back, (after.block b).instrs = front ++ q :: i :: back ∧
        code.Continues q i := by
  obtain ⟨front, back, split⟩ := List.append_of_mem listed
  have chain := built.chain b member
  rcases List.eq_nil_or_concat front with rfl | ⟨front, q, rfl⟩
  · exact .inl (by rw [split]; rfl)
  · have split' : (after.block b).instrs = front ++ q :: i :: back := by
      rw [split, List.concat_append]
    rw [split'] at chain
    exact .inr ⟨front, q, back, split', (List.isChain_append_cons_cons.mp chain).2.1⟩

theorem next_of_continues (built : code.Built first graph after) (linked : code.Linked items)
    (entry : first ∈ items) (member : b ∈ graph.members)
    (listed : i ∈ (after.block b).instrs) (continues : code.Continues i j) :
    [i, j] <:+: items :=
  (linked.follower i (built.mem_items linked entry member listed) j).mp continues.follower

/-- A block starts with an instruction just if that is a leader or stands after one that
ends a block. -/
theorem head_iff (built : code.Built first graph after) (linked : code.Linked items)
    (entry : items.head? = some first) (member : b ∈ graph.members)
    (listed : i ∈ (after.block b).instrs) :
    (after.block b).instrs.head? = some i ↔ (code.instr i).isLeader = true ∨
      ∃ p, [p, i] <:+: items ∧ (code.instr p).opcode.endsBlock = true := by
  constructor
  · intro head
    obtain ⟨j, same, -, opens⟩ := built.starts b member
    rw [head] at same
    cases same
    exact linked.leader_or_ends entry opens
  · intro starts
    rcases built.head_or_continues member listed with head | ⟨front, q, back, split, continues⟩
    · exact head
    · exfalso
      rcases starts with leads | ⟨p, next, ends⟩
      · rw [continues.plain] at leads
        cases leads
      · have here : q ∈ (after.block b).instrs := by rw [split]; simp
        have before := built.next_of_continues linked (List.mem_of_mem_head? entry) member here
          continues
        rw [linked.eq_of_next next before, continues.goesOn] at ends
        cases ends

/-- The instructions of a block are neighbours in the listing. -/
theorem chain_next (built : code.Built first graph after) (linked : code.Linked items)
    (entry : first ∈ items) (member : b ∈ graph.members) :
    (after.block b).instrs.IsChain fun i j =>
      [i, j] <:+: items ∧ j ∈ (after.block b).instrs := by
  apply (built.chain b member).imp_of_mem_imp
  intro i j here there continues
  exact ⟨built.next_of_continues linked entry member here continues, there⟩

theorem pairwise_instrs (built : code.Built first graph after) (linked : code.Linked items)
    (entry : first ∈ items) (member : b ∈ graph.members) :
    (after.block b).instrs.Pairwise fun i j =>
      (code.instr i).address < (code.instr j).address := by
  rw [← List.isChain_iff_pairwise]
  apply (built.chain_next linked entry member).imp
  intro i j next
  exact linked.address_lt next.1

/-- A block stands no later than its instructions. -/
theorem address_le (built : code.Built first graph after) (linked : code.Linked items)
    (entry : first ∈ items) (member : b ∈ graph.members)
    (listed : i ∈ (after.block b).instrs) : after.address b ≤ (code.instr i).address := by
  obtain ⟨head, starts, address, -⟩ := built.starts b member
  obtain ⟨rest, instrs⟩ := List.head?_eq_some_iff.mp starts
  have sorted := built.pairwise_instrs linked entry member
  rw [instrs] at listed sorted
  rw [← address]
  rcases List.mem_cons.mp listed with rfl | later
  · exact Int.le_refl _
  · exact Int.le_of_lt ((List.pairwise_cons.mp sorted).1 i later)

/-- A block does not reach past the start of another one. -/
theorem address_lt_of_lt (built : code.Built first graph after) (linked : code.Linked items)
    (entry : first ∈ items) (left : b ∈ graph.members) (right : c ∈ graph.members)
    (below : after.address b < after.address c) (here : i ∈ (after.block b).instrs)
    (there : j ∈ (after.block c).instrs) :
    (code.instr i).address < (code.instr j).address := by
  obtain ⟨start, headLeft, startsAt, -⟩ := built.starts b left
  obtain ⟨head, headRight, stands, -⟩ := built.starts c right
  have inside : head ∈ (after.block c).instrs := List.mem_of_mem_head? headRight
  have listed : head ∈ items := built.mem_items linked entry right inside
  -- Going on from neighbour to neighbour, the block would have to step onto `head`.
  have short : ∀ k ∈ (after.block b).instrs,
      (code.instr k).address < (code.instr head).address := by
    refine (built.chain_next linked entry left).induction _ _ ?_ ?_
    · intro k l next before
      obtain ⟨next, member⟩ := next
      apply lt_of_le_of_ne
      · exact (linked.le_or_le next listed).resolve_left (Int.not_le.mpr before)
      · intro same
        have met := linked.eq_of_address (next.subset (by simp)) listed same
        rw [met] at member
        rw [built.eq_of_listed left right member inside] at below
        exact Int.lt_irrefl _ below
    · intro nonempty
      have same : (after.block b).instrs.head nonempty = start := by
        rw [List.head?_eq_some_head nonempty] at headLeft
        exact Option.some.inj headLeft
      rw [same, startsAt, stands]
      exact below
  have first := built.address_le linked entry right there
  rw [← stands] at first
  exact Int.lt_of_lt_of_le (short i here) first

theorem pairwise_ordered (built : code.Built first graph after) :
    (graph.ordered after).Pairwise fun b c => after.address b < after.address c :=
  Graph.pairwise_ordered built.membership.distinct

/-- The blocks by rising address list instructions by rising address. -/
theorem pairwise_flatMap (built : code.Built first graph after) (linked : code.Linked items)
    (entry : first ∈ items) :
    ((graph.ordered after).flatMap fun b => (after.block b).instrs).Pairwise fun i j =>
      (code.instr i).address < (code.instr j).address := by
  rw [List.pairwise_flatMap]
  refine ⟨?_, ?_⟩
  · intro b member
    exact built.pairwise_instrs linked entry (Graph.mem_ordered.mp member)
  · apply built.pairwise_ordered.imp_of_mem
    intro b c left right below i here j there
    exact built.address_lt_of_lt linked entry (Graph.mem_ordered.mp left)
      (Graph.mem_ordered.mp right) below here there

end Arena.Built

/-! ## Fresh instructions -/

/-- The instruction has neither a block nor followers and branches. -/
def Instruction.IsFresh (instr : Instruction n) : Prop :=
  instr.block = none ∧ instr.follower = none ∧ instr.branches = []

instance (instr : Instruction n) : Decidable instr.IsFresh :=
  inferInstanceAs (Decidable (_ ∧ _ ∧ _))

namespace Graph

section Fresh

variable {arena code after : Arena n} {first : Fin n} {rest : List (Fin n)}
  {listing linked : Listing n} {graph : Graph}

/-- Linking fresh instructions leads to a linked listing, and gives no instruction a
block. -/
theorem linked_of_fresh {instrs : List (Fin n)}
    (fresh : ∀ i ∈ instrs, (arena.instr i).IsFresh)
    (listed : Listing.ofList arena instrs = .ok listing)
    (links : listing.link arena = .ok linked code) :
    linked.items = instrs ∧ code.Linked instrs ∧
      ∀ i ∈ instrs, code.owner i = none := by
  obtain ⟨rising, rfl⟩ := Listing.ofList_eq_ok_iff.mp listed
  have unlinked : (instrs.any fun i => (arena.instr i).isResolved) = false := by
    rw [List.any_eq_false]
    intro i member
    obtain ⟨-, follower, branches⟩ := fresh i member
    simp [Instruction.isResolved, follower, branches]
  obtain ⟨items, chained⟩ :=
    Listing.linked_of_link rising (fun i member => (fresh i member).2.1) unlinked links
  refine ⟨items, chained, ?_⟩
  intro i member
  rw [(Listing.kept_of_link links i).2]
  exact (fresh i member).1

/-- Linking fresh instructions and constructing their graph leads to blocks that are
built over a linked listing. -/
theorem built_of_fresh (fresh : ∀ i ∈ first :: rest, (arena.instr i).IsFresh)
    (listed : Listing.ofList arena (first :: rest) = .ok listing)
    (links : listing.link arena = .ok linked code)
    (constructed : construct linked.items code = .ok graph after) :
    code.Linked (first :: rest) ∧ code.Built first graph after ∧
      ∀ i ∈ first :: rest, code.owner i = none := by
  obtain ⟨items, chained, free⟩ := linked_of_fresh fresh listed links
  rw [items] at constructed
  refine ⟨chained, built_of_construct free ?_ constructed, free⟩
  intro i reached
  exact free i (chained.mem_of_reaches List.mem_cons_self reached)

open Classical in
/-- **Partition.** After linking and construction, the blocks by rising address list the
instructions that can be reached, in program order. Each of these belongs to the block
that lists it, the others to none. Where blocks start depends on the listing only, and a
block stands where its first instruction does. -/
theorem partition_of_construct (fresh : ∀ i ∈ first :: rest, (arena.instr i).IsFresh)
    (listed : Listing.ofList arena (first :: rest) = .ok listing)
    (links : listing.link arena = .ok linked code)
    (constructed : construct linked.items code = .ok graph after) :
    ((graph.ordered after).flatMap fun b => (after.block b).instrs) =
        (first :: rest).filter (fun i => code.Reaches first i) ∧
      (∀ i, code.Reaches first i →
        ∃ b ∈ graph.members, after.owner i = some b ∧ i ∈ (after.block b).instrs) ∧
      (∀ i ∈ first :: rest, ¬ code.Reaches first i → after.owner i = none) ∧
      (∀ i, code.Reaches first i →
        ((∃ b ∈ graph.members, (after.block b).instrs.head? = some i) ↔
          i = first ∨ (code.instr i).isLeader = true ∨
            ∃ p, [p, i] <:+: first :: rest ∧ (code.instr p).opcode.endsBlock = true)) ∧
      ∀ b ∈ graph.members, ∃ i, (after.block b).instrs.head? = some i ∧
        (after.instr i).address = after.address b := by
  obtain ⟨chained, built, free⟩ := built_of_fresh fresh listed links constructed
  have entry : (first :: rest).head? = some first := rfl
  have here : first ∈ first :: rest := List.mem_cons_self
  refine ⟨?_, ?_, ?_, ?_, ?_⟩
  · -- Both lists rise strictly, so it is enough that they have the same members.
    have irrefl : Std.Irrefl fun i j => (code.instr i).address < (code.instr j).address :=
      ⟨fun i => Int.lt_irrefl _⟩
    have antisymm : Std.Antisymm fun i j => (code.instr i).address < (code.instr j).address :=
      ⟨fun i j low high => absurd (Int.lt_trans low high) (Int.lt_irrefl _)⟩
    apply (built.pairwise_flatMap chained here).eq_of_mem_iff (chained.rising.filter _)
    intro i
    rw [List.mem_flatMap, List.mem_filter, decide_eq_true_iff]
    constructor
    · intro inside
      obtain ⟨b, member, listed⟩ := inside
      have member := mem_ordered.mp member
      exact ⟨built.mem_items chained here member listed,
        (built.ownership.listed b member i listed).2⟩
    · intro reached
      obtain ⟨b, member, listed⟩ := built.listed_of_reaches reached.2
      exact ⟨b, mem_ordered.mpr member, listed⟩
  · intro i reached
    obtain ⟨b, member, listed⟩ := built.listed_of_reaches reached
    exact ⟨b, member, (built.ownership.listed b member i listed).1, listed⟩
  · intro i member unreached
    have kept : after.owner i = code.owner i := built.ownership.elsewhere i unreached
    rw [kept, free i member]
  · intro i reached
    obtain ⟨b, member, listed⟩ := built.listed_of_reaches reached
    have starts := built.head_iff chained entry member listed
    constructor
    · intro heads
      obtain ⟨c, other, head⟩ := heads
      rw [built.eq_of_listed other member (List.mem_of_mem_head? head) listed] at head
      exact .inr (starts.mp head)
    · intro opens
      rcases opens with rfl | opens
      · exact ⟨b, member, starts.mpr (.inl (chained.entry i entry))⟩
      · exact ⟨b, member, starts.mpr opens⟩
  · intro b member
    obtain ⟨i, head, address, -⟩ := built.starts b member
    exact ⟨i, head, by rw [built.same.address, address]⟩

end Fresh

end Graph

/-- A call, a loop that unreachable code jumps into, and a jump to itself. -/
def Arena.tangled : Arena 10 where
  instrs := #v[
    { address := 0, opcode := .jsr, targets := [24] },
    { address := 6, opcode := .const },
    { address := 8, opcode := .jz, targets := [6] },
    { address := 14, opcode := .retn },
    { address := 16, opcode := .jmp, targets := [8] },
    { address := 20, opcode := .nop },
    { address := 22, opcode := .jmp, targets := [20] },
    { address := 24, opcode := .nop, kind := .storeState },
    { address := 26, opcode := .jmp, targets := [26] },
    { address := 30, opcode := .retn }]

theorem Arena.tangled_constructed :
    ∃ listing linked code graph after,
      Listing.ofList tangled (List.finRange 10) = .ok listing ∧
      listing.link tangled = .ok linked code ∧
      Graph.construct linked.items code = .ok graph after ∧
      graph.members.length = 6 ∧ [0, 7, 8, 8].IsChain code.Flows := by
  have runs : (match (⟨List.finRange 10, false⟩ : Listing 10).link tangled with
      | .error .. => (0, false)
      | .ok linked code =>
          match Graph.construct linked.items code with
          | .error .. => (0, false)
          | .ok graph _ => (graph.members.length, decide ([0, 7, 8, 8].IsChain code.Flows))) =
      (6, true) := by decide +kernel
  cases links : (⟨List.finRange 10, false⟩ : Listing 10).link tangled with
  | error fault code => rw [links] at runs; cases runs
  | ok linked code =>
      simp only [links] at runs
      cases constructed : Graph.construct linked.items code with
      | error fault after => rw [constructed] at runs; cases runs
      | ok graph after =>
          simp only [constructed, Prod.mk.injEq, decide_eq_true_eq] at runs
          exact ⟨_, linked, code, graph, after, rfl, links, constructed, runs⟩

open Classical in
theorem Graph.partition_of_construct_tangled :
    ∃ listing linked code graph after,
      (∀ i ∈ List.finRange 10, (Arena.tangled.instr i).IsFresh) ∧
      Listing.ofList Arena.tangled (List.finRange 10) = .ok listing ∧
      listing.link Arena.tangled = .ok linked code ∧
      construct linked.items code = .ok graph after ∧ graph.members.length = 6 ∧
      ((graph.ordered after).flatMap fun b => (after.block b).instrs) =
        (List.finRange 10).filter (fun i => code.Reaches 0 i) := by
  obtain ⟨listing, linked, code, graph, after, listed, links, constructed, blocks, -⟩ :=
    Arena.tangled_constructed
  have fresh : ∀ i ∈ (0 : Fin 10) :: [1, 2, 3, 4, 5, 6, 7, 8, 9],
      (Arena.tangled.instr i).IsFresh := by decide
  obtain ⟨parts, -⟩ := partition_of_construct fresh listed links constructed
  exact ⟨listing, linked, code, graph, after, fresh, listed, links, constructed, blocks, parts⟩

end ScriptFlow
