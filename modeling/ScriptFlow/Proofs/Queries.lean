import ScriptFlow.Graph
import ScriptFlow.Graph.LinearPath
import ScriptFlow.Graph.Neighbours

/-!
# What queries depend on

The queries on the blocks of a graph read the edges between them and which of these are
calls, and of the addresses no more than their order. Two arenas that agree on that
(`Arena.Echoes`) answer them alike (`Graph.AnswersAlike`).

Where edges stay among the blocks and each has a kind (`Arena.Closed`), there is an answer
to every query.
-/

namespace ScriptFlow

variable {n : Nat}

namespace Arena

/-- Edges lead from block to block, a parent has the edge that it is listed for, and each
edge has a kind. -/
structure Closed (arena : Arena n) (blocks : List BlockId) : Prop where
  children : ∀ b ∈ blocks, ∀ c ∈ (arena.block b).children, c ∈ blocks
  parents : ∀ b ∈ blocks, ∀ p ∈ (arena.block b).parents,
    p ∈ blocks ∧ b ∈ (arena.block p).children
  kinds : ∀ b ∈ blocks, (arena.block b).children.length = (arena.block b).kinds.length

/-- The blocks stand in the same order and have the same edges, and calls are calls. -/
structure Echoes (before after : Arena n) (blocks : List BlockId) : Prop where
  order : ∀ b ∈ blocks, ∀ c ∈ blocks,
    after.address b < after.address c ↔ before.address b < before.address c
  children : ∀ b ∈ blocks, (after.block b).children = (before.block b).children
  parents : ∀ b ∈ blocks, (after.block b).parents = (before.block b).parents
  calls : ∀ b ∈ blocks, (after.block b).kinds.map EdgeKind.isSubroutineCall =
    (before.block b).kinds.map EdgeKind.isSubroutineCall

variable {arena before after : Arena n} {blocks : List BlockId} {b c : BlockId}

section Order

variable (echoes : before.Echoes after blocks) (left : b ∈ blocks) (right : c ∈ blocks)

include echoes left right

/-- Where the order of blocks is the same, so are all comparisons of their addresses. -/
theorem Echoes.le_iff : after.address b ≤ after.address c ↔
    before.address b ≤ before.address c := by
  rw [← Int.not_lt, echoes.order c right b left, Int.not_lt]

theorem Echoes.eq_iff : after.address b = after.address c ↔
    before.address b = before.address c := by
  rw [Int.le_antisymm_iff, Int.le_antisymm_iff, echoes.le_iff left right,
    echoes.le_iff right left]

end Order

/-! ## Edges -/

/-- The place that is found for a child is one of its places. -/
theorem getElem?_of_childIndex? {place : Nat}
    (found : arena.childIndex? b c = some place) :
    (arena.block b).children[place]? = some c := by
  obtain ⟨bound, here, -⟩ := List.idxOf?_eq_some_iff.mp found
  exact List.getElem?_eq_some_iff.mpr ⟨bound, here⟩

/-- A child has a place. -/
theorem exists_childIndex? (child : c ∈ (arena.block b).children) :
    ∃ place, arena.childIndex? b c = some place :=
  Option.isSome_iff_exists.mp (List.isSome_idxOf?.mpr child)

/-- Of an edge to a child it is known whether it is a call. -/
theorem isSubroutineChild_of_mem
    (kinds : (arena.block b).children.length = (arena.block b).kinds.length)
    (child : c ∈ (arena.block b).children) :
    ∃ index kind, arena.childIndex? b c = some index ∧
      (arena.block b).kinds[index]? = some kind ∧
      arena.isSubroutineChild b c = .ok kind.isSubroutineCall := by
  obtain ⟨index, place⟩ := exists_childIndex? child
  obtain ⟨bound, -⟩ := List.getElem?_eq_some_iff.mp (getElem?_of_childIndex? place)
  have there := List.getElem?_eq_getElem (kinds ▸ bound)
  refine ⟨index, _, place, there, ?_⟩
  rw [isSubroutineChild, edgeKind, place]
  dsimp only
  rw [there]
  rfl

/-- Both arenas can tell whether a child is called, and they agree. -/
theorem Echoes.isSubroutineChild (echoes : before.Echoes after blocks)
    (closed : before.Closed blocks) (member : b ∈ blocks) (child : c ∈ (before.block b).children) :
    ∃ call, before.isSubroutineChild b c = .ok call ∧ after.isSubroutineChild b c = .ok call := by
  have children := echoes.children b member
  have calls := echoes.calls b member
  have kinds : (after.block b).children.length = (after.block b).kinds.length := by
    have length := congrArg List.length calls
    rw [List.length_map, List.length_map] at length
    rw [children, length, closed.kinds b member]
  obtain ⟨index, kind, place, there, answer⟩ :=
    isSubroutineChild_of_mem (closed.kinds b member) child
  obtain ⟨index', kind', place', there', answer'⟩ :=
    isSubroutineChild_of_mem kinds (children ▸ child)
  have same : index' = index := by
    rw [childIndex?, children] at place'
    exact Option.some.inj (place'.symm.trans place)
  have call : kind'.isSubroutineCall = kind.isSubroutineCall := by
    have both := congrArg (·[index]?) calls
    simp only [List.getElem?_map] at both
    rw [there, ← same, there'] at both
    exact Option.some.inj both
  exact ⟨_, answer, call ▸ answer'⟩

/-- Entries about which two questions are answered alike are kept alike. -/
theorem keepEach_alike {keep keep' : BlockId → Except Fault Bool} {entries : List BlockId}
    (alike : ∀ b ∈ entries, ∃ kept, keep b = .ok kept ∧ keep' b = .ok kept) :
    ∃ found, keepEach keep entries = .ok found ∧ keepEach keep' entries = .ok found := by
  induction entries with
  | nil => exact ⟨[], rfl, rfl⟩
  | cons b rest ih =>
      rw [List.forall_mem_cons] at alike
      obtain ⟨kept, here, here'⟩ := alike.1
      obtain ⟨others, there, there'⟩ := ih alike.2
      refine ⟨if kept then b :: others else others, ?_, ?_⟩
      · rw [keepEach, here, there]
        rfl
      · rw [keepEach, here', there']
        rfl

section Select

variable (echoes : before.Echoes after blocks) (closed : before.Closed blocks)
  (member : b ∈ blocks) {among among' : Address → Bool}
  (same : ∀ c ∈ blocks, among' (after.address c) = among (before.address c))
  (subroutines : Bool)

include echoes closed member same

/-- Both arenas select the same children. -/
theorem Echoes.selectChildren :
    ∃ found, before.selectChildren b among subroutines = .ok found ∧
      after.selectChildren b among' subroutines = .ok found := by
  unfold Arena.selectChildren
  rw [echoes.children b member,
    List.filter_congr fun c child => same c (closed.children b member c child)]
  apply keepEach_alike
  intro c selected
  obtain ⟨call, known, known'⟩ :=
    echoes.isSubroutineChild closed member (List.mem_filter.mp selected).1
  cases subroutines with
  | true => exact ⟨true, rfl, rfl⟩
  | false =>
      rw [known, known']
      exact ⟨!call, rfl, rfl⟩

/-- Both arenas select the same parents. -/
theorem Echoes.selectParents :
    ∃ found, before.selectParents b among subroutines = .ok found ∧
      after.selectParents b among' subroutines = .ok found := by
  unfold Arena.selectParents
  rw [echoes.parents b member,
    List.filter_congr fun p parent => same p (closed.parents b member p parent).1]
  apply keepEach_alike
  intro p selected
  obtain ⟨listed, child⟩ := closed.parents b member p (List.mem_filter.mp selected).1
  obtain ⟨call, known, known'⟩ := echoes.isSubroutineChild closed listed child
  cases subroutines with
  | true => exact ⟨true, rfl, rfl⟩
  | false =>
      rw [known, known']
      exact ⟨!call, rfl, rfl⟩

end Select

/-! ## Linear paths -/

/-- A search reads how the blocks stand to the goal, and their edges. -/
theorem Echoes.reaches (echoes : before.Echoes after blocks) (closed : before.Closed blocks)
    {goal : BlockId} (known : goal ∈ blocks) {visited pending : List BlockId}
    (inside : ∀ b ∈ pending, b ∈ blocks) :
    after.reaches (after.address goal) visited pending =
      before.reaches (before.address goal) visited pending := by
  fun_induction Arena.reaches before (before.address goal) visited pending with
  | case1 visited => rw [Arena.reaches]
  | case2 visited b rest here =>
      rw [List.forall_mem_cons] at inside
      rw [Arena.reaches, if_pos ((echoes.eq_iff inside.1 known).mpr here)]
  | case3 visited b rest elsewhere passed ih =>
      rw [List.forall_mem_cons] at inside
      rw [Arena.reaches, if_neg fun here => elsewhere ((echoes.eq_iff inside.1 known).mp here),
        dif_pos (passed.imp_left (echoes.order goal known b inside.1).mpr), ih inside.2]
  | case4 visited b rest elsewhere ahead ih =>
      rw [List.forall_mem_cons] at inside
      have children := echoes.children b inside.1
      have among : ∀ c ∈ (before.block b).children ++ rest, c ∈ blocks := by
        intro c listed
        rcases List.mem_append.mp listed with child | later
        · exact closed.children b inside.1 c child
        · exact inside.2 c later
      rw [Arena.reaches, if_neg fun here => elsewhere ((echoes.eq_iff inside.1 known).mp here),
        dif_neg fun passed => ahead (passed.imp_left (echoes.order goal known b inside.1).mp),
        children, ih among]

/-- The search starts from the same block and goes the same way. -/
theorem Echoes.hasLinearPath (echoes : before.Echoes after blocks)
    (closed : before.Closed blocks) (left : b ∈ blocks) (right : c ∈ blocks) :
    after.hasLinearPath b c = before.hasLinearPath b c := by
  have alone : ∀ d ∈ blocks, ∀ e ∈ [d], e ∈ blocks := by
    intro d member e listed
    rwa [List.mem_singleton.mp listed]
  unfold Arena.hasLinearPath
  simp only [echoes.le_iff left right, echoes.reaches closed right (alone b left),
    echoes.reaches closed left (alone c right)]

end Arena

/-! ## The order of the blocks -/

namespace Graph

variable {before after : Arena n} {blocks : List BlockId} {graph : Graph} {b : BlockId}

/-- A choice among blocks depends on how these qualify and compare, not on how others do. -/
theorem foldl_improve_congr {qualifies qualifies' : BlockId → Bool}
    {better better' : BlockId → BlockId → Bool}
    (qualify : ∀ c ∈ blocks, qualifies' c = qualifies c)
    (compare : ∀ c ∈ blocks, ∀ d ∈ blocks, better' c d = better c d)
    {candidates : List BlockId} (inside : ∀ c ∈ candidates, c ∈ blocks)
    {choice : Option BlockId} (chosen : ∀ d, choice = some d → d ∈ blocks) :
    candidates.foldl (improve qualifies' better') choice =
      candidates.foldl (improve qualifies better) choice := by
  induction candidates generalizing choice with
  | nil => rfl
  | cons c rest ih =>
      rw [List.forall_mem_cons] at inside
      have step : improve qualifies' better' choice c = improve qualifies better choice c := by
        unfold improve
        rw [qualify c inside.1]
        cases choice with
        | none => rfl
        | some d => simp only [Option.all_some, compare c inside.1 d (chosen d rfl)]
      have kept : ∀ d, improve qualifies better choice c = some d → d ∈ blocks := by
        intro d improved
        unfold improve at improved
        split at improved
        next => cases improved; exact inside.1
        next => exact chosen d improved
      rw [List.foldl_cons, List.foldl_cons, step, ih inside.2 kept]

section Order

variable (echoes : before.Echoes after graph.members)

include echoes

/-- Blocks in the same order are sorted alike. -/
theorem ordered_of_echoes : graph.ordered after = graph.ordered before := by
  have same := List.map_mergeSort (f := id) (l := graph.members)
    (r := fun b c => decide (before.address b ≤ before.address c))
    (s := fun b c => decide (after.address b ≤ after.address c))
    (fun b left c right => by simp only [id, echoes.le_iff left right])
  rw [List.map_id, List.map_id] at same
  exact same.symm

theorem next?_of_echoes (member : b ∈ graph.members) :
    graph.next? after b = graph.next? before b := by
  refine foldl_improve_congr ?_ ?_ (fun c listed => listed) nofun
  · intro c listed
    simp only [echoes.order b member c listed]
  · intro c left d right
    simp only [echoes.order c left d right]

theorem previous?_of_echoes (member : b ∈ graph.members) :
    graph.previous? after b = graph.previous? before b := by
  refine foldl_improve_congr ?_ ?_ (fun c listed => listed) nofun
  · intro c listed
    simp only [echoes.order c listed b member]
  · intro c left d right
    simp only [echoes.order d right c left]

end Order

/-- Every query on the blocks of a graph has the same answer in both arenas. -/
structure AnswersAlike (graph : Graph) (before after : Arena n) : Prop where
  ordered : graph.ordered after = graph.ordered before
  next : ∀ b ∈ graph.members, graph.next? after b = graph.next? before b
  previous : ∀ b ∈ graph.members, graph.previous? after b = graph.previous? before b
  earlierChildren : ∀ b ∈ graph.members, ∀ subroutines, ∃ found,
    before.earlierChildren b subroutines = .ok found ∧
      after.earlierChildren b subroutines = .ok found
  laterChildren : ∀ b ∈ graph.members, ∀ subroutines, ∃ found,
    before.laterChildren b subroutines = .ok found ∧
      after.laterChildren b subroutines = .ok found
  earlierParents : ∀ b ∈ graph.members, ∀ subroutines, ∃ found,
    before.earlierParents b subroutines = .ok found ∧
      after.earlierParents b subroutines = .ok found
  laterParents : ∀ b ∈ graph.members, ∀ subroutines, ∃ found,
    before.laterParents b subroutines = .ok found ∧
      after.laterParents b subroutines = .ok found
  linearPath : ∀ b ∈ graph.members, ∀ c ∈ graph.members,
    after.hasLinearPath b c = before.hasLinearPath b c

/-- Arenas in which the blocks echo each other answer every query on them alike. -/
theorem answersAlike_of_echoes (echoes : before.Echoes after graph.members)
    (closed : before.Closed graph.members) : graph.AnswersAlike before after := by
  have earlier : ∀ b ∈ graph.members, ∀ c ∈ graph.members,
      decide (after.address c < after.address b) =
        decide (before.address c < before.address b) := by
    intro b member c listed
    simp only [echoes.order c listed b member]
  have later : ∀ b ∈ graph.members, ∀ c ∈ graph.members,
      decide (after.address b ≤ after.address c) =
        decide (before.address b ≤ before.address c) := by
    intro b member c listed
    simp only [echoes.le_iff member listed]
  exact
    { ordered := ordered_of_echoes echoes
      next := fun b => next?_of_echoes echoes
      previous := fun b => previous?_of_echoes echoes
      earlierChildren := fun b member => echoes.selectChildren closed member (earlier b member)
      laterChildren := fun b member => echoes.selectChildren closed member (later b member)
      earlierParents := fun b member => echoes.selectParents closed member (earlier b member)
      laterParents := fun b member => echoes.selectParents closed member (later b member)
      linearPath := fun b left c right => echoes.hasLinearPath closed left right }

end Graph

end ScriptFlow
