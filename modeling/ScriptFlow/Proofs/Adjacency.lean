import Mathlib.Logic.Function.Iterate
import ScriptFlow.Proofs.Growth

/-!
# The order of the blocks

A graph refuses a block at an address where it has one, and no other. So its blocks stand at
different addresses whatever was asked of it (`Draft.Apart`), and there is one order in which
the addresses rise.

A scan that keeps the better of two candidates ends with the first one that qualifies in the
order of the comparison (`Graph.foldl_improve_eq_find?`). That makes `Graph.next?` and
`Graph.previous?` searches of `Graph.ordered` from its two ends, for any block, and for a
block of the graph they are its neighbours there (`Graph.neighbours_of_split`).

A graph can also be built with an index by address that is kept beside the list
(`Directory`): blocks are looked up in it, and sorting its addresses gives the order. The two
stay in step, so that nothing depends on which one is asked. `Directory.order_of_requests` says
all this of every graph that blocks are added to one by one.
-/

namespace ScriptFlow

variable {n : Nat}

/-! ## The best of some candidates -/

namespace Graph

section Best

variable {qualifies : BlockId → Bool} {better : BlockId → BlockId → Bool}

/-- The choice is a candidate that qualifies, and none that does is better. There is no
choice only if no candidate qualifies. -/
def IsBest (qualifies : BlockId → Bool) (better : BlockId → BlockId → Bool)
    (candidates : List BlockId) : Option BlockId → Prop
  | none => ∀ c ∈ candidates, qualifies c = false
  | some c => c ∈ candidates ∧ qualifies c = true ∧
      ∀ d ∈ candidates, qualifies d = true → better d c = false

theorem IsBest.congr {candidates others : List BlockId} {choice : Option BlockId}
    (best : IsBest qualifies better candidates choice)
    (same : ∀ c, c ∈ others ↔ c ∈ candidates) : IsBest qualifies better others choice := by
  cases choice <;> simpa only [IsBest, same] using best

/-- In a list that the comparison has sorted, the best candidate comes first of those that
qualify. -/
theorem IsBest.eq_find? {sorted : List BlockId} {choice : Option BlockId}
    (rising : sorted.Pairwise fun c d => better c d = true)
    (best : IsBest qualifies better sorted choice) : choice = sorted.find? qualifies := by
  cases choice with
  | none =>
      symm
      rw [List.find?_eq_none]
      intro c listed
      rw [best c listed]
      exact Bool.false_ne_true
  | some c =>
      obtain ⟨listed, qualified, least⟩ := best
      have found : (sorted.find? qualifies).isSome := List.find?_isSome.mpr ⟨c, listed, qualified⟩
      obtain ⟨d, first⟩ := Option.isSome_iff_exists.mp found
      obtain ⟨suits, before, after, split, passed⟩ := List.find?_eq_some_iff_append.mp first
      rw [first, Option.some.injEq]
      rw [split] at listed rising least
      rcases List.mem_append.mp listed with early | late
      · have rejected := passed c early
        rw [qualified] at rejected
        cases rejected
      rcases List.mem_cons.mp late with same | later
      · exact same
      · have precedes := (List.pairwise_cons.mp (List.pairwise_append.mp rising).2.1).1 c later
        rw [least d (by simp) suits] at precedes
        cases precedes

variable (irrefl : ∀ c, better c c = false)
  (trans : ∀ c d e, better c d = true → better d e = true → better c e = true)

include irrefl trans

/-- One more candidate makes the choice better, if it is better. -/
theorem IsBest.improve {seen : List BlockId} {choice : Option BlockId}
    (best : IsBest qualifies better seen choice) (c : BlockId) :
    IsBest qualifies better (c :: seen) (improve qualifies better choice c) := by
  unfold Graph.improve
  split
  next takes =>
    obtain ⟨qualified, prefers⟩ := Bool.and_eq_true_iff.mp takes
    refine ⟨List.mem_cons_self, qualified, List.forall_mem_cons.mpr ⟨fun _ => irrefl c, ?_⟩⟩
    intro d listed suits
    cases choice with
    | none =>
        rw [best d listed] at suits
        cases suits
    | some e =>
        -- What is better than the new choice would have been better than the old one.
        by_contra beats
        have beaten := trans d c e (Bool.not_eq_false _ ▸ beats) prefers
        rw [best.2.2 d listed suits] at beaten
        cases beaten
  next stays =>
    cases choice with
    | none =>
        refine List.forall_mem_cons.mpr ⟨?_, best⟩
        simpa using stays
    | some e =>
        obtain ⟨listed, suits, least⟩ := best
        refine ⟨List.mem_cons_of_mem c listed, suits, List.forall_mem_cons.mpr ⟨?_, least⟩⟩
        simpa using stays

/-- After a scan the choice is the best of all candidates. -/
theorem IsBest.foldl {seen candidates : List BlockId} {choice : Option BlockId}
    (best : IsBest qualifies better seen choice) :
    IsBest qualifies better (candidates.reverse ++ seen)
      (candidates.foldl (Graph.improve qualifies better) choice) := by
  induction candidates generalizing seen choice with
  | nil => exact best
  | cons c rest ih =>
      rw [List.reverse_cons, List.append_assoc]
      exact ih (best.improve irrefl trans c)

/-- A scan of candidates in any order finds the first one that qualifies in the order of the
comparison. -/
theorem foldl_improve_eq_find? {candidates sorted : List BlockId}
    (perm : sorted.Perm candidates)
    (rising : sorted.Pairwise fun c d => better c d = true) :
    candidates.foldl (Graph.improve qualifies better) none = sorted.find? qualifies := by
  have start : IsBest qualifies better [] none := nofun
  have best : IsBest qualifies better (candidates.reverse ++ [])
      (candidates.foldl (Graph.improve qualifies better) none) := start.foldl irrefl trans
  have same : ∀ c, c ∈ sorted ↔ c ∈ candidates.reverse ++ [] := by simp [perm.mem_iff]
  exact (best.congr same).eq_find? rising

end Best

/-! ## Neighbours in the order -/

section Order

variable {graph : Graph} {arena : Arena n} {b c : BlockId} {front rest : List BlockId}

/-- Split at one of its blocks, a list of rising addresses has the lower ones in front. -/
theorem address_lt_of_split
    (rising : (front ++ b :: rest).Pairwise fun c d => arena.address c < arena.address d) :
    (∀ c ∈ front, arena.address c < arena.address b) ∧
      ∀ c ∈ rest, arena.address b < arena.address c := by
  obtain ⟨-, later, across⟩ := List.pairwise_append.mp rising
  exact ⟨fun c early => across c early b List.mem_cons_self, (List.pairwise_cons.mp later).1⟩

variable (distinct : graph.members.Pairwise fun b c => arena.address b ≠ arena.address c)

include distinct

theorem eq_of_address (left : b ∈ graph.members) (right : c ∈ graph.members)
    (same : arena.address b = arena.address c) : b = c :=
  List.inj_on_of_nodup_map (List.pairwise_map.mpr distinct) left right same

/-- At an address there is the block of the graph that stands there, or none. -/
theorem get?_eq_some_iff {address : Address} :
    graph.get? arena address = some b ↔ b ∈ graph.members ∧ arena.address b = address := by
  unfold get?
  constructor
  · intro found
    have here := List.find?_some found
    exact ⟨List.mem_of_find?_eq_some found, of_decide_eq_true here⟩
  · rintro ⟨member, rfl⟩
    have taken : (graph.members.find? (arena.address · = arena.address b)).isSome :=
      List.find?_isSome.mpr ⟨b, member, decide_eq_true rfl⟩
    obtain ⟨c, found⟩ := Option.isSome_iff_exists.mp taken
    have here := List.find?_some found
    rw [found, eq_of_address distinct (List.mem_of_find?_eq_some found) member
      (of_decide_eq_true here)]

/-- The next block is the first one above in order. -/
theorem next?_eq_find? (b : BlockId) : graph.next? arena b =
    (graph.ordered arena).find? (arena.address b < arena.address ·) := by
  apply foldl_improve_eq_find? ?_ ?_ (ordered_perm graph arena)
  · exact (pairwise_ordered distinct).imp decide_eq_true
  · exact fun c => decide_eq_false (Int.lt_irrefl _)
  · intro c d e low high
    exact decide_eq_true (Int.lt_trans (of_decide_eq_true low) (of_decide_eq_true high))

theorem previous?_eq_find? (b : BlockId) : graph.previous? arena b =
    (graph.ordered arena).reverse.find? (arena.address · < arena.address b) := by
  apply foldl_improve_eq_find? ?_ ?_ ((List.reverse_perm _).trans (ordered_perm graph arena))
  · exact (List.pairwise_reverse.mpr (pairwise_ordered distinct)).imp decide_eq_true
  · exact fun c => decide_eq_false (Int.lt_irrefl _)
  · intro c d e high low
    exact decide_eq_true (Int.lt_trans (of_decide_eq_true low) (of_decide_eq_true high))

/-- A block of the graph finds its neighbours in the order. -/
theorem neighbours_of_split (split : graph.ordered arena = front ++ b :: rest) :
    graph.next? arena b = rest.head? ∧ graph.previous? arena b = front.getLast? := by
  have rising := pairwise_ordered distinct
  rw [split] at rising
  obtain ⟨below, above⟩ := address_lt_of_split rising
  rw [next?_eq_find? distinct, previous?_eq_find? distinct, split]
  constructor
  · have lower : front.find? (arena.address b < arena.address ·) = none := by
      simpa using fun c early => Int.le_of_lt (below c early)
    rw [List.find?_append, lower, Option.none_or, List.find?_cons_of_neg (by simp)]
    cases rest with
    | nil => rfl
    | cons c later => exact List.find?_cons_of_pos (decide_eq_true (above c List.mem_cons_self))
  · have upper : rest.reverse.find? (arena.address · < arena.address b) = none := by
      simpa using fun c late => Int.le_of_lt (above c late)
    rw [List.reverse_append, List.reverse_cons, List.append_assoc, List.find?_append, upper,
      Option.none_or, List.singleton_append, List.find?_cons_of_neg (by simp)]
    rcases List.eq_nil_or_concat front with rfl | ⟨early, c, rfl⟩
    · rfl
    · rw [List.concat_eq_append] at below ⊢
      rw [List.reverse_append, List.reverse_singleton, List.singleton_append,
        List.getLast?_concat]
      exact List.find?_cons_of_pos (decide_eq_true (below c (by simp)))

/-- For the blocks of the graph, going on and going back undo each other. -/
theorem next?_eq_some_iff (left : b ∈ graph.members) (right : c ∈ graph.members) :
    graph.next? arena b = some c ↔ graph.previous? arena c = some b := by
  constructor
  · intro found
    obtain ⟨front, rest, split⟩ := List.append_of_mem ((ordered_perm graph arena).mem_iff.mpr left)
    rw [(neighbours_of_split distinct split).1] at found
    obtain ⟨later, rfl⟩ := List.head?_eq_some_iff.mp found
    rw [List.append_cons] at split
    rw [(neighbours_of_split distinct split).2, List.getLast?_concat]
  · intro found
    obtain ⟨front, rest, split⟩ := List.append_of_mem ((ordered_perm graph arena).mem_iff.mpr right)
    rw [(neighbours_of_split distinct split).2] at found
    obtain ⟨early, rfl⟩ := List.getLast?_eq_some_iff.mp found
    rw [List.append_assoc, List.singleton_append] at split
    rw [(neighbours_of_split distinct split).1, List.head?_cons]

/-- Going on from the first block lists the blocks in their order. -/
theorem iterate_next? (place : Nat) :
    (·.bind (graph.next? arena))^[place] (graph.ordered arena).head? =
      (graph.ordered arena)[place]? := by
  induction place with
  | zero => exact List.head?_eq_getElem?
  | succ place ih =>
      rw [Function.iterate_succ_apply', ih]
      cases here : (graph.ordered arena)[place]? with
      | none =>
          have past := List.getElem?_eq_none_iff.mp here
          exact (List.getElem?_eq_none (Nat.le_succ_of_le past)).symm
      | some b =>
          obtain ⟨bound, rfl⟩ := List.getElem?_eq_some_iff.mp here
          have split : graph.ordered arena = (graph.ordered arena).take place ++
              (graph.ordered arena)[place] :: (graph.ordered arena).drop (place + 1) := by
            rw [List.getElem_cons_drop, List.take_append_drop]
          rw [Option.bind_some, (neighbours_of_split distinct split).1, List.head?_drop]

end Order

end Graph

/-! ## Graphs that blocks are added to -/

namespace Draft

/-- A block that a caller makes, in the graph or outside of it. -/
inductive Request where
  | member (address : Address)
  | stray (address : Address)

/-- The draft after a request. A block that the graph refuses is not made. -/
def serve (draft : Draft n) : Request → Draft n
  | .member address => left (create address draft)
  | .stray address => { draft with arena := draft.arena.newBlock address }

/-- The blocks of the graph are blocks of the arena, at different addresses. -/
structure Apart (draft : Draft n) : Prop where
  stored : ∀ b ∈ draft.graph.members, b < draft.arena.blocks.size
  distinct : draft.graph.members.Pairwise fun b c =>
    draft.arena.address b ≠ draft.arena.address c

theorem Apart.created {draft after : Draft n} {address : Address} {b : BlockId}
    (apart : draft.Apart) (created : create address draft = .ok b after) : after.Apart :=
  ⟨Stage.lt_size_created created apart.stored,
    Stage.distinct_created created apart.stored apart.distinct⟩

theorem Apart.newBlock {draft : Draft n} (apart : draft.Apart) (address : Address) :
    Apart { draft with arena := draft.arena.newBlock address } := by
  have kept : ∀ b ∈ draft.graph.members,
      (draft.arena.newBlock address).address b = draft.arena.address b :=
    fun b member => Arena.address_newBlock_of_lt (apart.stored b member) address
  refine ⟨?_, ?_⟩
  · intro b member
    rw [Arena.size_newBlock]
    exact Nat.lt_succ_of_lt (apart.stored b member)
  · apply apart.distinct.imp_of_mem
    intro b c left right
    rw [kept b left, kept c right]
    exact id

end Draft

/-! ## An index by address -/

/-- A graph that is built with an index of its blocks beside it. -/
structure Directory (n : Nat) where
  draft : Draft n
  /-- The blocks by their addresses, in the order of their creation. -/
  index : List (Address × BlockId) := []

namespace Directory

open Draft (Request)

/-- The block at an address, looked up in the index. -/
def get? (directory : Directory n) (address : Address) : Option BlockId :=
  directory.index.lookup address

/-- The blocks by rising address: the addresses of the index are sorted, and looked up. -/
def ordered (directory : Directory n) : List BlockId :=
  ((directory.index.map (·.1)).mergeSort (· ≤ ·)).filterMap directory.get?

/-- Adds a block at an address that is not in the index yet. -/
def create (address : Address) : EStateM Fault (Directory n) BlockId := fun directory =>
  match directory.get? address with
  | some _ => .error (.duplicateBlock address) directory
  | none =>
      let b := directory.draft.arena.blocks.size
      .ok b
        { draft :=
            { arena := directory.draft.arena.newBlock address
              graph := { members := directory.draft.graph.members ++ [b] } }
          index := directory.index ++ [(address, b)] }

/-- The directory after a request. -/
def serve (directory : Directory n) : Request → Directory n
  | .member address => left (create address directory)
  | .stray address => { directory with draft := directory.draft.serve (.stray address) }

/-- The index has each block of the graph at its address. -/
structure InStep (directory : Directory n) : Prop where
  apart : directory.draft.Apart
  index : directory.index =
    directory.draft.graph.members.map fun b => (directory.draft.arena.address b, b)

theorem lookup_map_eq_find? (key : BlockId → Address) (address : Address)
    (members : List BlockId) :
    (members.map fun b => (key b, b)).lookup address =
      members.find? fun b => key b = address := by
  induction members with
  | nil => rfl
  | cons b rest ih =>
      rw [List.map_cons, List.lookup_cons, List.find?_cons, ih]
      by_cases here : key b = address
      · rw [here, beq_self_eq_true, decide_eq_true rfl]
      · rw [beq_false_of_ne (Ne.symm here), decide_eq_false here]

section InStep

variable {directory : Directory n} (inStep : directory.InStep)

include inStep

/-- A look-up in the index finds what a search of the graph does. -/
theorem InStep.get?_eq (address : Address) :
    directory.get? address = directory.draft.graph.get? directory.draft.arena address := by
  rw [get?, inStep.index]
  exact lookup_map_eq_find? ..

/-- Sorting addresses sorts the blocks. -/
theorem InStep.ordered_eq :
    directory.ordered = directory.draft.graph.ordered directory.draft.arena := by
  have sorted : (directory.index.map (·.1)).mergeSort (· ≤ ·) =
      (directory.draft.graph.ordered directory.draft.arena).map
        directory.draft.arena.address := by
    rw [inStep.index, List.map_map]
    exact (List.map_mergeSort (f := directory.draft.arena.address) fun b _ c _ => rfl).symm
  rw [ordered, sorted, List.filterMap_map]
  refine (List.filterMap_congr fun b listed => ?_).trans List.filterMap_some
  have member := Graph.mem_ordered.mp listed
  exact (inStep.get?_eq _).trans
    ((Graph.get?_eq_some_iff inStep.apart.distinct).mpr ⟨member, rfl⟩)

theorem InStep.index_newBlock (address : Address) :
    directory.index = directory.draft.graph.members.map fun b =>
      ((directory.draft.arena.newBlock address).address b, b) := by
  rw [inStep.index]
  apply List.map_congr_left
  intro b member
  rw [Arena.address_newBlock_of_lt (inStep.apart.stored b member)]

/-- The index refuses just the blocks that a search refuses, and stays in step. -/
theorem InStep.create_cases (address : Address) :
    (create address directory = .error (.duplicateBlock address) directory ∧
      Draft.create address directory.draft = .error (.duplicateBlock address) directory.draft) ∨
    ∃ b after, create address directory = .ok b after ∧
      Draft.create address directory.draft = .ok b after.draft ∧ after.InStep := by
  unfold create
  rw [inStep.get?_eq]
  cases found : directory.draft.graph.get? directory.draft.arena address with
  | some b =>
      refine .inl ⟨rfl, ?_⟩
      rw [Draft.create, found]
  | none =>
      have created : Draft.create address directory.draft =
          .ok directory.draft.arena.blocks.size
            { arena := directory.draft.arena.newBlock address
              graph :=
                { members := directory.draft.graph.members ++
                    [directory.draft.arena.blocks.size] } } := by
        rw [Draft.create, found]
      refine .inr ⟨_, _, rfl, created, inStep.apart.created created, ?_⟩
      rw [List.map_append, List.map_singleton, Stage.address_created created,
        inStep.index_newBlock address]

/-- Every request keeps the index in step, one that is refused included. -/
theorem InStep.serve (request : Request) :
    (directory.serve request).InStep ∧
      (directory.serve request).draft = directory.draft.serve request := by
  cases request with
  | member address =>
      rcases inStep.create_cases address with ⟨refused, same⟩ | ⟨b, after, made, same, next⟩
      · rw [Directory.serve, Draft.serve, refused, same]
        exact ⟨inStep, rfl⟩
      · rw [Directory.serve, Draft.serve, made, same]
        exact ⟨next, rfl⟩
  | stray address =>
      exact ⟨⟨inStep.apart.newBlock address, inStep.index_newBlock address⟩, rfl⟩

end InStep

/-- With or without an index, the same graph comes of any requests. -/
theorem inStep_of_requests (arena : Arena n) (requests : List Request) :
    (requests.foldl serve { draft := { arena } }).InStep ∧
      (requests.foldl serve { draft := { arena } }).draft =
        requests.foldl Draft.serve { arena } := by
  have served : ∀ directory : Directory n, directory.InStep →
      (requests.foldl serve directory).InStep ∧
        (requests.foldl serve directory).draft =
          requests.foldl Draft.serve directory.draft := by
    induction requests with
    | nil => exact fun directory inStep => ⟨inStep, rfl⟩
    | cons request rest ih =>
        intro directory inStep
        obtain ⟨next, same⟩ := inStep.serve request
        rw [List.foldl_cons, List.foldl_cons, ← same]
        exact ih _ next
  exact served _ ⟨⟨nofun, .nil⟩, rfl⟩

/-- **Order.** Blocks may be added to a graph at any addresses, and others made beside it.
With an index or without, the same blocks are there. A block at an address that is taken is
refused, and nothing changes. The addresses of the index, sorted, list the blocks of the graph
by strictly rising address, and an address has the block that stands there. The next and the
previous block of any block are the first above it and the last below it in that order. Within
the graph the two undo each other, and going on from the first block lists them all. -/
theorem order_of_requests (arena : Arena n) (requests : List Request) :
    let directory := requests.foldl serve { draft := { arena } }
    let draft := directory.draft
    let address := draft.arena.address
    let ordered := directory.ordered
    let next? := draft.graph.next? draft.arena
    let previous? := draft.graph.previous? draft.arena
    draft = requests.foldl Draft.serve { arena } ∧
    (∀ a, (create a directory = .error (.duplicateBlock a) directory ∧
        ∃ b ∈ draft.graph.members, address b = a) ∨
      ∃ b after, create a directory = .ok b after ∧
        after.draft.graph.members = draft.graph.members ++ [b] ∧
        after.draft.arena.address b = a ∧ ∀ c ∈ draft.graph.members, address c ≠ a) ∧
    (∀ a, directory.get? a = draft.graph.get? draft.arena a) ∧
    ordered = draft.graph.ordered draft.arena ∧
    ordered.Perm draft.graph.members ∧
    ordered.Pairwise (fun b c => address b < address c) ∧
    (∀ a b, directory.get? a = some b ↔ b ∈ draft.graph.members ∧ address b = a) ∧
    (∀ b, next? b = ordered.find? (address b < address ·) ∧
      previous? b = ordered.reverse.find? (address · < address b)) ∧
    (∀ b ∈ draft.graph.members, ∀ c ∈ draft.graph.members,
      next? b = some c ↔ previous? c = some b) ∧
    ∀ place, (·.bind next?)^[place] ordered.head? = ordered[place]? := by
  intro directory draft address ordered next? previous?
  obtain ⟨inStep, same⟩ := inStep_of_requests arena requests
  have distinct := inStep.apart.distinct
  have sorted : ordered = draft.graph.ordered draft.arena := inStep.ordered_eq
  refine ⟨same, fun a => ?_, inStep.get?_eq, sorted, ?_⟩
  · rcases inStep.create_cases a with ⟨refused, failed⟩ | ⟨b, after, made, created, -⟩
    · exact .inl ⟨refused, Draft.taken_of_create failed⟩
    · exact .inr ⟨b, after, made, (Draft.create_of_ok created).2.2,
        Stage.address_created created, Draft.vacant_of_create created⟩
  rw [sorted]
  refine ⟨Graph.ordered_perm .., Graph.pairwise_ordered distinct, fun a b => ?_, ?_, ?_, ?_⟩
  · rw [inStep.get?_eq]
    exact Graph.get?_eq_some_iff distinct
  · exact fun b => ⟨Graph.next?_eq_find? distinct b, Graph.previous?_eq_find? distinct b⟩
  · exact fun b left c right => Graph.next?_eq_some_iff distinct left right
  · exact fun place => Graph.iterate_next? distinct place

end Directory

end ScriptFlow
