import ScriptFlow.Proofs.Partition

/-!
# Walks over blocks are the runs of the code

An edge of a block leads to the start of its child, never into the middle
(`Arena.Built.head_of_flows`): whatever control reaches from the end of a block is a
leader or the follower, and a block that holds the follower further down would hold
the end of the first one too.

So a run of instructions can be cut into blocks, one edge at a time
(`Arena.Built.walk_of_run`), and the blocks of a walk can be read one after the other
(`Arena.Built.run_of_walk`).
-/

namespace ScriptFlow

variable {n : Nat}

namespace Arena

/-- Each block of a walk is a child of the one before it. -/
def IsWalk (arena : Arena n) (walk : List BlockId) : Prop :=
  walk.IsChain fun b c => c ∈ (arena.block b).children

/-- The instructions that the blocks of a walk list, in order. -/
def reading (arena : Arena n) (walk : List BlockId) : List (Fin n) :=
  walk.flatMap fun b => (arena.block b).instrs

namespace Built

variable {code after : Arena n} {items : List (Fin n)} {first : Fin n} {graph : Graph}
  {b c : BlockId} {i j : Fin n}

/-! ## Edges lead to the start of a block -/

/-- An instruction that control reaches from the end of a block starts the block that
lists it. -/
theorem head_of_flows (built : code.Built first graph after) (linked : code.Linked items)
    (entry : first ∈ items) (left : b ∈ graph.members) (right : c ∈ graph.members)
    (ends : (after.block b).instrs.getLast? = some i) (flows : code.Flows i j)
    (inside : j ∈ (after.block c).instrs) : (after.block c).instrs.head? = some j := by
  have listed : i ∈ (after.block b).instrs := List.mem_of_getLast? ends
  have known : i ∈ items := built.mem_items linked entry left listed
  rcases built.head_or_continues right inside with head | ⟨front, q, back, split, continues⟩
  · exact head
  · exfalso
    rcases linked.leader_or_next known flows with leads | follower
    · rw [continues.plain] at leads
      cases leads
    · have before : q ∈ (after.block c).instrs := by rw [split]; simp
      have same : q = i := linked.eq_of_next
        (built.next_of_continues linked entry right before continues)
        ((linked.follower i known j).mp follower)
      rw [same] at before split
      obtain rfl := built.eq_of_listed left right listed before
      have once := built.ownership.once b left
      rw [split, List.nodup_append, List.nodup_cons] at once
      rw [split, List.getLast?_append, List.getLast?_cons_cons] at ends
      have later : i ∈ j :: back := by
        apply List.mem_of_getLast?
        simpa using ends
      exact once.2.1.1 later

/-- The edges of a block lead to the blocks that start with the destinations. -/
theorem edges_start (built : code.Built first graph after) (linked : code.Linked items)
    (entry : first ∈ items) (member : b ∈ graph.members) :
    ∃ last edges, (after.block b).instrs.getLast? = some last ∧
      (code.instr last).Leads edges ∧ (after.block b).kinds = edges.map (·.2) ∧
      List.Forall₂
        (fun c edge => c ∈ graph.members ∧ after.owner edge.1 = some c ∧
          (after.block c).instrs.head? = some edge.1)
        (after.block b).children edges := by
  obtain ⟨last, edges, ends, leads, kinds, children⟩ := built.edges b member
  refine ⟨last, edges, ends, leads, kinds, ?_⟩
  rw [List.forall₂_iff_get] at children ⊢
  refine ⟨children.1, ?_⟩
  intro place left right
  obtain ⟨child, inside⟩ := children.2 place left right
  have flows := Arena.flows_of_leads leads (List.get_mem edges ⟨place, right⟩)
  exact ⟨child, (built.ownership.listed _ child _ inside).1,
    built.head_of_flows linked entry member child ends flows inside⟩

/-- Control passes from the end of a block to the start of each of its children. -/
theorem flows_of_child (built : code.Built first graph after) (linked : code.Linked items)
    (entry : first ∈ items) (member : b ∈ graph.members)
    (child : c ∈ (after.block b).children)
    (ends : (after.block b).instrs.getLast? = some i)
    (starts : (after.block c).instrs.head? = some j) : code.Flows i j := by
  obtain ⟨last, edges, found, leads, -, children⟩ := built.edges_start linked entry member
  rw [ends] at found
  cases found
  obtain ⟨place, bound, rfl⟩ := List.getElem_of_mem child
  have within := children.length_eq ▸ bound
  obtain ⟨-, -, head⟩ := children.get bound within
  simp only [List.get_eq_getElem] at head
  rw [starts] at head
  cases head
  exact Arena.flows_of_leads leads (List.getElem_mem within)

/-! ## Runs and walks -/

/-- A walk from the entry stays in the graph. -/
theorem members_of_walk (built : code.Built first graph after) {walk : List BlockId}
    (starts : walk.head? = graph.members.head?) (walks : after.IsWalk walk) :
    ∀ b ∈ walk, b ∈ graph.members := by
  refine List.IsChain.induction _ walk walks ?_ ?_
  · intro b c child member
    exact built.linkage.children b member c child
  · intro nonempty
    apply List.mem_of_mem_head?
    rw [← starts, List.head?_eq_some_head nonempty]
    rfl

/-- What a walk from the entry reads is a run of the code from the first instruction
on. -/
theorem run_of_walk (built : code.Built first graph after) (linked : code.Linked items)
    (entry : first ∈ items) {walk : List BlockId}
    (starts : walk.head? = graph.members.head?) (walks : after.IsWalk walk) :
    (after.reading walk).head? = some first ∧ (after.reading walk).IsChain code.Flows := by
  have members := built.members_of_walk starts walks
  refine ⟨?_, ?_⟩
  · rw [built.membership.entry] at starts
    obtain ⟨rest, rfl⟩ := List.head?_eq_some_iff.mp starts
    rw [reading, List.flatMap_cons, List.head?_append, built.entry]
    rfl
  · rw [reading, List.flatMap_def, List.isChain_flatten]
    · refine ⟨?_, ?_⟩
      · intro instrs listed
        obtain ⟨b, member, rfl⟩ := List.mem_map.mp listed
        exact (built.chain b (members b member)).imp fun _ _ => Continues.flows
      · rw [List.isChain_map]
        refine List.IsChain.imp_of_mem_imp ?_ walks
        intro b c member _ child i ends j head
        exact built.flows_of_child linked entry (members b member) child ends head
    · intro empty
      obtain ⟨b, member, instrs⟩ := List.mem_map.mp empty
      obtain ⟨i, head, -⟩ := built.starts b (members b member)
      rw [instrs] at head
      cases head

/-- A run has been read along the blocks of a walk: all of `walk`, and of the block `b`
after it the instructions up to `i`. -/
structure ReadTo (graph : Graph) (after : Arena n) (run : List (Fin n))
    (walk : List BlockId) (b : BlockId) (i : Fin n) (back : List (Fin n)) : Prop where
  starts : (walk ++ [b]).head? = graph.members.head?
  walks : after.IsWalk (walk ++ [b])
  member : b ∈ graph.members
  read : ∃ front, (after.block b).instrs = front ++ i :: back ∧
    run = after.reading walk ++ (front ++ [i])

/-- A run from the first instruction on can be read along the blocks of a walk. -/
theorem readTo_of_run (built : code.Built first graph after) (linked : code.Linked items)
    (entry : first ∈ items) (run : List (Fin n)) (starts : run.head? = some first)
    (flows : run.IsChain code.Flows) :
    ∃ walk b i back, run.getLast? = some i ∧ ReadTo graph after run walk b i back := by
  induction run using List.reverseRecOn with
  | nil => cases starts
  | append_singleton run j ih =>
      rcases List.eq_nil_or_concat run with rfl | ⟨early, last, split⟩
      · cases starts
        obtain ⟨rest, instrs⟩ := List.head?_eq_some_iff.mp built.entry
        refine ⟨[], code.blocks.size, first, rest, rfl, ?_, ?_, ?_, ?_⟩
        · exact built.membership.entry.symm
        · exact List.isChain_singleton _
        · exact List.mem_of_mem_head? built.membership.entry
        · exact ⟨[], instrs, rfl⟩
      · have nonempty : run ≠ [] := by rw [split]; simp
        obtain ⟨walk, b, i, back, ends, sofar⟩ := ih
          (by rwa [List.head?_append_of_ne_nil _ nonempty] at starts) flows.left_of_append
        have step : code.Flows i j :=
          (List.isChain_append.mp flows).2.2 i ends j rfl
        obtain ⟨front, instrs, read⟩ := sofar.read
        have listed : i ∈ (after.block b).instrs := by rw [instrs]; simp
        cases back with
        | cons k back =>
            -- The block goes on, so control goes where it does.
            have chain := built.chain b sofar.member
            rw [instrs] at chain
            have continues := (List.isChain_append_cons_cons.mp chain).2.1
            rw [Arena.Flows, Instruction.successors_of_not_endsBlock continues.goesOn,
              continues.follower] at step
            obtain rfl := List.mem_singleton.mp step
            refine ⟨walk, b, j, back, by simp, sofar.starts, sofar.walks, sofar.member, ?_⟩
            exact ⟨front ++ [i], by rw [instrs]; simp, by rw [read]; simp⟩
        | nil =>
            -- The block is read to its end, and control enters one of its children.
            have last : (after.block b).instrs.getLast? = some i := by rw [instrs]; simp
            obtain ⟨c, child, member, inside⟩ := built.child_of_flows sofar.member last step
            have head := built.head_of_flows linked entry sofar.member member last step inside
            obtain ⟨rest, instrs'⟩ := List.head?_eq_some_iff.mp head
            refine ⟨walk ++ [b], c, j, rest, by simp, ?_, ?_, member, [], instrs', ?_⟩
            · rw [List.head?_append_of_ne_nil _ (by simp)]
              exact sofar.starts
            · refine List.isChain_append.mpr ⟨sofar.walks, List.isChain_singleton c, ?_⟩
              simpa using child
            · rw [read, reading, reading, List.flatMap_append, List.flatMap_singleton, instrs]
              simp

/-- A run from the first instruction on begins what some walk from the entry reads. -/
theorem walk_of_run (built : code.Built first graph after) (linked : code.Linked items)
    (entry : first ∈ items) {run : List (Fin n)} (starts : run.head? = some first)
    (flows : run.IsChain code.Flows) :
    ∃ walk, walk.head? = graph.members.head? ∧ after.IsWalk walk ∧
      run <+: after.reading walk := by
  obtain ⟨walk, b, i, back, -, whole⟩ := built.readTo_of_run linked entry run starts flows
  obtain ⟨front, instrs, read⟩ := whole.read
  refine ⟨walk ++ [b], whole.starts, whole.walks, back, ?_⟩
  rw [read, reading, reading, List.flatMap_append, List.flatMap_singleton, instrs]
  simp

end Built

end Arena

namespace Graph

section Fresh

variable {arena code after : Arena n} {first : Fin n} {rest : List (Fin n)}
  {listing linked : Listing n} {graph : Graph}

/-- **Edges and runs.** After linking and construction, the edges of a block are those of
its last instruction, each with its kind and in order, to the blocks that start with the
destinations. So the runs of the code from the first instruction on are what walks from
the entry block read, up to any point. -/
theorem walks_of_construct (fresh : ∀ i ∈ first :: rest, (arena.instr i).IsFresh)
    (listed : Listing.ofList arena (first :: rest) = .ok listing)
    (links : listing.link arena = .ok linked code)
    (constructed : construct linked.items code = .ok graph after) :
    (∀ b ∈ graph.members, ∃ last edges, (after.block b).instrs.getLast? = some last ∧
      (code.instr last).Leads edges ∧ (after.block b).kinds = edges.map (·.2) ∧
      List.Forall₂
        (fun c edge => c ∈ graph.members ∧ after.owner edge.1 = some c ∧
          (after.block c).instrs.head? = some edge.1)
        (after.block b).children edges) ∧
    ∀ run : List (Fin n), (run.head? = some first ∧ run.IsChain code.Flows) ↔
      run ≠ [] ∧ ∃ walk, walk.head? = graph.members.head? ∧ after.IsWalk walk ∧
        run <+: after.reading walk := by
  obtain ⟨chained, built, -⟩ := built_of_fresh fresh listed links constructed
  have entry : first ∈ first :: rest := List.mem_cons_self
  refine ⟨fun b member => built.edges_start chained entry member, ?_⟩
  intro run
  constructor
  · intro runs
    refine ⟨?_, built.walk_of_run chained entry runs.1 runs.2⟩
    intro empty
    rw [empty] at runs
    cases runs.1
  · intro walked
    obtain ⟨nonempty, walk, starts, walks, back, whole⟩ := walked
    obtain ⟨head, flows⟩ := built.run_of_walk chained entry starts walks
    rw [← whole] at head flows
    rw [List.head?_append_of_ne_nil _ nonempty] at head
    exact ⟨head, flows.left_of_append⟩

end Fresh

/-- A run that calls, and then jumps on the spot. -/
theorem walks_of_construct_tangled :
    ∃ listing linked code graph after,
      (∀ i ∈ List.finRange 10, (Arena.tangled.instr i).IsFresh) ∧
      Listing.ofList Arena.tangled (List.finRange 10) = .ok listing ∧
      listing.link Arena.tangled = .ok linked code ∧
      construct linked.items code = .ok graph after ∧
      [0, 7, 8, 8].IsChain code.Flows ∧
      ∃ walk, walk.head? = graph.members.head? ∧ after.IsWalk walk ∧
        [0, 7, 8, 8] <+: after.reading walk := by
  obtain ⟨listing, linked, code, graph, after, listed, links, constructed, -, flows⟩ :=
    Arena.tangled_constructed
  have fresh : ∀ i ∈ (0 : Fin 10) :: [1, 2, 3, 4, 5, 6, 7, 8, 9],
      (Arena.tangled.instr i).IsFresh := by decide
  obtain ⟨-, walks⟩ := walks_of_construct fresh listed links constructed
  obtain ⟨-, walk⟩ := (walks [0, 7, 8, 8]).mp ⟨rfl, flows⟩
  exact ⟨listing, linked, code, graph, after, fresh, listed, links, constructed, flows, walk⟩

end Graph

end ScriptFlow
