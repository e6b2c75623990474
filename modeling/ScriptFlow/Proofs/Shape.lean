import Mathlib.Data.List.Forall2
import ScriptFlow.Proofs.Growth

/-!
# The shape of blocks under construction

A block that grows is about to claim an instruction, and a block that is closed waits
for edges. Counting these in, every block of a stage is complete:

* `Stage.Runs`: what a block has claimed and claims next (`Stage.body`) is a run of
  instructions, from one that may start a block on;
* `Stage.Edges`: the edges that a closed block has recorded, followed by those it still
  waits for (`Stage.waiting`), are the edges of its last instruction.

`Stage.Sound` joins these to the other parts of the invariant. At the end of a run
nothing grows or waits, and `Arena.Built` is what is left of it: a description of the
blocks that does not mention how they were made.
-/

namespace ScriptFlow

variable {n : Nat}

namespace Stage

variable {code : Arena n} {first : Fin n} {stage next : Stage n} {base : Nat}

/-- The instructions of a block, with the one that it claims next. -/
def body (stage : Stage n) (b : BlockId) : List (Fin n) :=
  (stage.draft.arena.block b).instrs ++
    match stage.growing with
    | some (c, i) => if c = b then [i] else []
    | none => []

/-- The edges of a block among those that are still to be recorded. -/
def waiting (links : List (Link n)) (b : BlockId) : List (Fin n × EdgeKind) :=
  (links.filter (·.parent = b)).map fun link => (link.destination, link.kind)

section Parts

variable {draft : Draft n} {links : List (Link n)} {b c : BlockId} {i : Fin n}

/-- A block that grows counts the instruction that it claims next. -/
theorem body_growing : body ⟨draft, some (b, i), links⟩ b =
    (draft.arena.block b).instrs ++ [i] := by
  simp [body]

theorem body_of_ne (other : b ≠ c) :
    body ⟨draft, some (b, i), links⟩ c = (draft.arena.block c).instrs := by
  simp [body, other]

theorem body_idle : body ⟨draft, none, links⟩ b = (draft.arena.block b).instrs := by
  simp [body]

/-- A block that does not grow has claimed its instructions. -/
theorem body_of_idle (idle : ∀ i, stage.growing ≠ some (b, i)) :
    stage.body b = (stage.draft.arena.block b).instrs := by
  rcases stage with ⟨draft, _ | ⟨c, i⟩, links⟩
  · exact body_idle
  · exact body_of_ne fun same => idle i (same ▸ rfl)

theorem body_of_growing (grows : stage.growing = some (b, i)) :
    stage.body b = (stage.draft.arena.block b).instrs ++ [i] := by
  obtain ⟨draft, growing, links⟩ := stage
  cases grows
  exact body_growing

/-- An instruction of a block is one that it has claimed, or claims next. -/
theorem mem_body : i ∈ stage.body b ↔
    i ∈ (stage.draft.arena.block b).instrs ∨ stage.growing = some (b, i) := by
  by_cases idle : ∀ j, stage.growing ≠ some (b, j)
  · rw [body_of_idle idle, or_iff_left (idle i)]
  · obtain ⟨j, grows⟩ := not_forall_not.mp idle
    rw [body_of_growing grows, grows, List.mem_append, List.mem_singleton, Option.some.injEq,
      Prod.mk.injEq, and_iff_right rfl, eq_comm]

theorem waiting_cons_self (d : Fin n) (kind : EdgeKind) (links : List (Link n)) :
    waiting (⟨b, d, kind⟩ :: links) b = (d, kind) :: waiting links b := by
  simp [waiting]

theorem waiting_cons_of_ne (other : b ≠ c) (d : Fin n) (kind : EdgeKind) :
    waiting (⟨b, d, kind⟩ :: links) c = waiting links c := by
  simp [waiting, other]

/-- A block that is closed waits for its edges before all others. -/
theorem waiting_ofEdges_self (edges : List (Fin n × EdgeKind)) :
    waiting (Link.ofEdges b edges ++ links) b = edges ++ waiting links b := by
  simp [waiting, Link.ofEdges, List.filter_map, Function.comp_def]

theorem waiting_ofEdges_of_ne (other : b ≠ c) (edges : List (Fin n × EdgeKind)) :
    waiting (Link.ofEdges b edges ++ links) c = waiting links c := by
  simp [waiting, Link.ofEdges, List.filter_map, Function.comp_def, other]

/-- A block waits for nothing if no edge that waits is its own. -/
theorem waiting_eq_nil (foreign : ∀ link ∈ links, link.parent ≠ b) :
    waiting links b = [] := by
  have none : links.filter (·.parent = b) = [] := by
    rw [List.filter_eq_nil_iff]
    intro link listed
    simpa using foreign link listed
  rw [waiting, none, List.map_nil]

theorem instrs_claim_self (bound : b < draft.arena.blocks.size) (i : Fin n) :
    ((draft.claim b i).arena.block b).instrs = (draft.arena.block b).instrs ++ [i] := by
  rw [Draft.arena_claim, Arena.instrs_claim, if_pos ⟨rfl, bound⟩]

theorem instrs_claim_of_ne (other : b ≠ c) (i : Fin n) :
    ((draft.claim b i).arena.block c).instrs = (draft.arena.block c).instrs := by
  rw [Draft.arena_claim, Arena.instrs_claim, if_neg fun same => other same.1]

end Parts

/-! ## Runs of instructions -/

/-- A block that there is already only gets longer, by an instruction with which its
last one continues. -/
theorem body_step (present : Membership base stage.draft) (step : Step code stage next)
    {c : BlockId} (member : c ∈ stage.draft.graph.members) :
    next.body c = stage.body c ∨
      ∃ front z j, stage.body c = front ++ [z] ∧ code.Continues z j ∧
        next.body c = front ++ [z] ++ [j] := by
  cases step with
  | @extend draft b i j links free continues vacant =>
      by_cases same : b = c
      · subst same
        refine .inr ⟨(draft.arena.block b).instrs, i, j, body_growing, continues, ?_⟩
        rw [body_growing, instrs_claim_self (present.lt_size b member)]
      · left
        rw [body_of_ne same, body_of_ne same, instrs_claim_of_ne same]
  | @close draft b i links edges free leads waits =>
      left
      by_cases same : b = c
      · subst same
        rw [body_idle, body_growing, instrs_claim_self (present.lt_size b member)]
      · rw [body_idle, body_of_ne same, instrs_claim_of_ne same]
  | @reuse draft p q d kind links owned =>
      left
      rw [body_idle, body_idle, Draft.arena_addChild, Arena.instrs_addChild]
  | @create draft made p q d kind links free created =>
      left
      have bound := present.lt_size c member
      have new : q ≠ c := (ne_created created bound).symm
      rw [body_of_ne new, body_idle, Draft.arena_addChild, Arena.instrs_addChild,
        block_of_created created bound]

/-- No edit takes a block out of the graph. -/
theorem member_step (step : Step code stage next) {c : BlockId}
    (member : c ∈ stage.draft.graph.members) : c ∈ next.draft.graph.members := by
  cases step with
  | extend => exact member
  | close => exact member
  | reuse => exact member
  | create free created => exact (mem_created created).mpr (.inl member)

/-- No edit takes an instruction from a block. -/
theorem mem_body_step (present : Membership base stage.draft)
    (step : Step code stage next) {c : BlockId}
    (member : c ∈ stage.draft.graph.members) {i : Fin n} (listed : i ∈ stage.body c) :
    i ∈ next.body c := by
  rcases body_step present step member with same | ⟨front, z, j, before, -, after⟩
  · exact same ▸ listed
  · rw [after, ← before]
    exact List.mem_append_left _ listed

/-- A block that has claimed an instruction that ends it stays as it is. -/
theorem body_of_ended (present : Membership base stage.draft) (steps : Steps code stage next)
    {b : BlockId} (member : b ∈ stage.draft.graph.members) {z : Fin n}
    (last : (stage.body b).getLast? = some z)
    (ends : (code.instr z).opcode.endsBlock = true) : next.body b = stage.body b := by
  suffices Membership base next.draft ∧ b ∈ next.draft.graph.members ∧
      next.body b = stage.body b from this.2.2
  induction steps with
  | refl => exact ⟨present, member, rfl⟩
  | tail _ step ih =>
      obtain ⟨present, member, same⟩ := ih
      refine ⟨present.step step, member_step step member, ?_⟩
      rcases body_step present step member with kept | ⟨front, y, j, before, continues, -⟩
      · exact kept.trans same
      · rw [← same, before, List.getLast?_concat] at last
        cases last
        rw [continues.goesOn] at ends
        cases ends

/-- No edit moves a block. -/
theorem address_step (present : Membership base stage.draft) (step : Step code stage next)
    {c : BlockId} (member : c ∈ stage.draft.graph.members) :
    next.draft.arena.address c = stage.draft.arena.address c := by
  cases step with
  | extend => exact Arena.address_claim ..
  | close => exact Arena.address_claim ..
  | reuse => exact Arena.address_addChild ..
  | create free created =>
      rw [Draft.arena_addChild, Arena.address_addChild, Arena.address,
        block_of_created created (present.lt_size c member), Arena.address]

/-- A block starts where its address says, with an instruction that may start one, and
goes on as long as the instructions continue. -/
structure Runs (code : Arena n) (first : Fin n) (stage : Stage n) : Prop where
  entry : (stage.body code.blocks.size).head? = some first
  chain : ∀ b ∈ stage.draft.graph.members, (stage.body b).IsChain code.Continues
  starts : ∀ b ∈ stage.draft.graph.members, ∃ i, (stage.body b).head? = some i ∧
    (code.instr i).address = stage.draft.arena.address b ∧ code.Opens first i

theorem Runs.initial : Runs code first (Stage.initial code first) := by
  have body : (Stage.initial code first).body code.blocks.size = [first] := by
    apply body_growing.trans
    show ((Stage.initial code first).draft.arena.block code.blocks.size).instrs ++ _ = _
    rw [block_initial, List.nil_append]
  refine ⟨by rw [body]; rfl, ?_, ?_⟩
  · intro b member
    rw [List.mem_singleton.mp member, body]
    exact List.isChain_singleton first
  · intro b member
    rw [List.mem_singleton.mp member, body, Arena.address, block_initial]
    exact ⟨first, rfl, rfl, .entry⟩

/-- A block keeps its first instruction. -/
theorem head_body_step (present : Membership base stage.draft)
    (step : Step code stage next) {c : BlockId}
    (member : c ∈ stage.draft.graph.members) {i : Fin n}
    (head : (stage.body c).head? = some i) : (next.body c).head? = some i := by
  rcases body_step present step member with same | ⟨front, z, j, before, -, after⟩
  · rw [same, head]
  · rw [after, ← before, List.head?_append, head]
    rfl

/-- A block that the step adds is about to claim its first instruction. -/
theorem created_step (agenda : Agenda code first stage) (step : Step code stage next)
    {c : BlockId} (member : c ∈ next.draft.graph.members)
    (new : c ∉ stage.draft.graph.members) :
    ∃ d, next.body c = [d] ∧ (code.instr d).address = next.draft.arena.address c ∧
      code.Opens first d := by
  cases step with
  | extend => exact (new member).elim
  | close => exact (new member).elim
  | reuse => exact (new member).elim
  | @create draft made p q d kind links free created =>
      rcases (mem_created created).mp member with known | rfl
      · exact (new known).elim
      · refine ⟨d, ?_, ?_, ?_⟩
        · rw [body_growing, Draft.arena_addChild, Arena.instrs_addChild,
            block_created created]
          rfl
        · rw [Draft.arena_addChild, Arena.address_addChild, Arena.address,
            block_created created]
        · rcases agenda.opens _ List.mem_cons_self with opens | owned
          · exact opens
          · exact (owned free).elim

/-- Every edit keeps blocks to runs: growth goes on to where instructions continue, and a new
block starts at the end of an edge. -/
theorem Runs.step (runs : Runs code first stage)
    (present : Membership code.blocks.size stage.draft) (agenda : Agenda code first stage)
    (step : Step code stage next) : Runs code first next := by
  refine ⟨?_, ?_, ?_⟩
  · exact head_body_step present step (List.mem_of_mem_head? present.entry) runs.entry
  · intro b member
    by_cases known : b ∈ stage.draft.graph.members
    · have chain := runs.chain b known
      rcases body_step present step known with same | ⟨front, z, j, before, more, after⟩
      · exact same ▸ chain
      · rw [before] at chain
        rw [after]
        exact chain.append (List.isChain_singleton j) (by simpa using more)
    · obtain ⟨d, body, -⟩ := created_step agenda step member known
      exact body ▸ List.isChain_singleton d
  · intro b member
    by_cases known : b ∈ stage.draft.graph.members
    · obtain ⟨i, head, address, opens⟩ := runs.starts b known
      rw [← address_step present step known] at address
      exact ⟨i, head_body_step present step known head, address, opens⟩
    · obtain ⟨d, body, address, opens⟩ := created_step agenda step member known
      exact ⟨d, by rw [body]; rfl, address, opens⟩

/-! ## Edges of closed blocks -/

/-- A block that ends with `last` has recorded the given edges, and waits for the rest of
those of `last`. Each leads to the block that lists its destination, or is to claim
it. -/
structure Progress (code : Arena n) (stage : Stage n) (b : BlockId) (last : Fin n)
    (recorded : List (Fin n × EdgeKind)) : Prop where
  ends : (stage.draft.arena.block b).instrs.getLast? = some last
  leads : (code.instr last).Leads (recorded ++ waiting stage.links b)
  kinds : (stage.draft.arena.block b).kinds = recorded.map (·.2)
  children : List.Forall₂
    (fun c edge => c ∈ stage.draft.graph.members ∧ edge.1 ∈ stage.body c)
    (stage.draft.arena.block b).children recorded

/-- A block that grows has no edge yet, and one that does not has made progress. -/
structure Edges (code : Arena n) (stage : Stage n) : Prop where
  growing : ∀ b i, stage.growing = some (b, i) →
    (stage.draft.arena.block b).children = [] ∧ (stage.draft.arena.block b).kinds = [] ∧
      waiting stage.links b = []
  closed : ∀ b ∈ stage.draft.graph.members, (∀ i, stage.growing ≠ some (b, i)) →
    ∃ last recorded, Progress code stage b last recorded

theorem Edges.initial : Edges code (Stage.initial code first) := by
  refine ⟨?_, ?_⟩
  · intro b i grows
    cases grows
    rw [block_initial]
    exact ⟨rfl, rfl, rfl⟩
  · intro b member idle
    rw [List.mem_singleton.mp member] at idle
    exact (idle first rfl).elim

/-- A block for which edges wait does not grow. -/
theorem Edges.idle (edges : Edges code stage) {p : BlockId} {d : Fin n} {kind : EdgeKind}
    (waits : ⟨p, d, kind⟩ ∈ stage.links) (i : Fin n) : stage.growing ≠ some (p, i) := by
  intro grows
  have nothing := (edges.growing p i grows).2.2
  have listed : (d, kind) ∈ waiting stage.links p :=
    List.mem_map.mpr ⟨⟨p, d, kind⟩, List.mem_filter.mpr ⟨waits, by simp⟩, rfl⟩
  rw [nothing] at listed
  cases listed

section Progress

variable {b c d : BlockId} {last : Fin n} {recorded : List (Fin n × EdgeKind)}

/-- The blocks that recorded edges lead to stay, and only grow. -/
theorem Progress.children_step (progress : Progress code stage b last recorded)
    (present : Membership base stage.draft) (step : Step code stage next) :
    List.Forall₂ (fun c edge => c ∈ next.draft.graph.members ∧ edge.1 ∈ next.body c)
      (stage.draft.arena.block b).children recorded := by
  apply progress.children.imp
  intro c edge leads
  obtain ⟨member, listed⟩ := leads
  exact ⟨member_step step member, mem_body_step present step member listed⟩

/-- A step that neither changes the block nor what it waits for. -/
theorem Progress.keep (progress : Progress code stage b last recorded)
    (present : Membership base stage.draft) (step : Step code stage next)
    (instrs : (next.draft.arena.block b).instrs = (stage.draft.arena.block b).instrs)
    (children : (next.draft.arena.block b).children = (stage.draft.arena.block b).children)
    (kinds : (next.draft.arena.block b).kinds = (stage.draft.arena.block b).kinds)
    (waits : waiting next.links b = waiting stage.links b) :
    Progress code next b last recorded := by
  refine ⟨?_, ?_, ?_, ?_⟩
  · rw [instrs, progress.ends]
  · rw [waits]
    exact progress.leads
  · rw [kinds, progress.kinds]
  · rw [children]
    exact progress.children_step present step

/-- A step that records the next edge the block waits for. -/
theorem Progress.record {i : Fin n} {kind : EdgeKind}
    (progress : Progress code stage b last recorded)
    (present : Membership base stage.draft) (step : Step code stage next)
    (instrs : (next.draft.arena.block b).instrs = (stage.draft.arena.block b).instrs)
    (children : (next.draft.arena.block b).children =
      (stage.draft.arena.block b).children ++ [c])
    (kinds : (next.draft.arena.block b).kinds = (stage.draft.arena.block b).kinds ++ [kind])
    (waits : waiting stage.links b = (i, kind) :: waiting next.links b)
    (member : c ∈ next.draft.graph.members) (listed : i ∈ next.body c) :
    Progress code next b last (recorded ++ [(i, kind)]) := by
  refine ⟨?_, ?_, ?_, ?_⟩
  · rw [instrs, progress.ends]
  · have leads := progress.leads
    rw [waits] at leads
    simpa using leads
  · rw [kinds, progress.kinds, List.map_append]
    rfl
  · rw [children]
    have old := progress.children_step present step
    exact List.rel_append old (.cons ⟨member, listed⟩ .nil)

/-- A step that records an edge, be it one that the block waits for or not. -/
theorem Progress.connect {draft made : Draft n} {p q : BlockId} {i : Fin n}
    {kind : EdgeKind} {links : List (Link n)} {growing : Option (BlockId × Fin n)}
    (progress : Progress code ⟨draft, none, ⟨p, i, kind⟩ :: links⟩ b last recorded)
    (present : Membership base draft)
    (step : Step code ⟨draft, none, ⟨p, i, kind⟩ :: links⟩
      ⟨made.addChild p q kind, growing, links⟩)
    (before : made.arena.block b = draft.arena.block b)
    (bound : b < made.arena.blocks.size) (member : q ∈ made.graph.members)
    (listed : i ∈ body ⟨made.addChild p q kind, growing, links⟩ q) :
    ∃ recorded, Progress code ⟨made.addChild p q kind, growing, links⟩ b last recorded := by
  have instrs : ((made.addChild p q kind).arena.block b).instrs =
      (draft.arena.block b).instrs := by
    rw [Draft.arena_addChild, Arena.instrs_addChild, before]
  have children := Arena.children_addChild made.arena p q kind b
  have kinds := Arena.kinds_addChild made.arena p q kind b
  by_cases same : p = b
  · subst same
    rw [if_pos ⟨rfl, bound⟩, before] at children kinds
    exact ⟨_, progress.record present step instrs children kinds
      (waiting_cons_self i kind links) member listed⟩
  · rw [if_neg fun here => same here.1, before] at children kinds
    exact ⟨_, progress.keep present step instrs children kinds
      (waiting_cons_of_ne same i kind).symm⟩

/-- A block that does not grow makes progress. -/
theorem Progress.step (progress : Progress code stage b last recorded)
    (present : Membership base stage.draft) (ownership : Ownership code first stage.draft)
    (agenda : Agenda code first stage) (step : Step code stage next)
    (known : b ∈ stage.draft.graph.members) (idle : ∀ i, stage.growing ≠ some (b, i)) :
    ∃ recorded, Progress code next b last recorded := by
  have taken := step
  cases step with
  | @extend draft c i j links free continues vacant =>
      have other : c ≠ b := fun same => idle i (same ▸ rfl)
      exact ⟨recorded, progress.keep present taken (instrs_claim_of_ne other i)
        (Arena.children_claim ..) (Arena.kinds_claim ..) rfl⟩
  | @close draft c i links exits free leads waits =>
      have other : c ≠ b := fun same => idle i (same ▸ rfl)
      exact ⟨recorded, progress.keep present taken (instrs_claim_of_ne other i)
        (Arena.children_claim ..) (Arena.kinds_claim ..) (waiting_ofEdges_of_ne other exits)⟩
  | @reuse draft p q i kind links owned =>
      obtain ⟨-, reached⟩ := agenda.links _ List.mem_cons_self
      obtain ⟨child, listed⟩ := ownership.owned i q reached owned
      apply progress.connect present taken rfl (present.lt_size b known) child
      rw [body_idle, Draft.arena_addChild, Arena.instrs_addChild]
      exact listed
  | @create draft made p q i kind links free created =>
      have child : q ∈ made.graph.members := (mem_created created).mpr (.inr rfl)
      have kept : b ∈ made.graph.members := (mem_created created).mpr (.inl known)
      refine progress.connect present taken
        (block_of_created created (present.lt_size b known))
        ((present.create created).lt_size b kept) child ?_
      rw [body_growing]
      exact List.mem_append_right _ (List.mem_singleton_self i)

end Progress

/-- Every edit keeps what blocks have recorded and wait for. -/
theorem Edges.step (edges : Edges code stage)
    (present : Membership base stage.draft) (ownership : Ownership code first stage.draft)
    (agenda : Agenda code first stage) (step : Step code stage next) : Edges code next := by
  have old : ∀ b ∈ stage.draft.graph.members, (∀ i, stage.growing ≠ some (b, i)) →
      ∃ last recorded, Progress code next b last recorded := by
    intro b member idle
    obtain ⟨last, recorded, progress⟩ := edges.closed b member idle
    exact ⟨last, progress.step present ownership agenda step member idle⟩
  cases step with
  | @extend draft b i j links free continues vacant =>
      refine ⟨?_, ?_⟩
      · intro c k grows
        cases grows
        simpa using edges.growing b i rfl
      · intro c member idle
        apply old c member
        intro k grows
        cases grows
        exact idle j rfl
  | @close draft b i links exits free leads waits =>
      refine ⟨nofun, ?_⟩
      intro c member idle
      by_cases same : b = c
      · subst same
        obtain ⟨children, kinds, nothing⟩ := edges.growing b i rfl
        refine ⟨i, [], ?_, ?_, ?_, ?_⟩
        · rw [instrs_claim_self (present.lt_size b member), List.getLast?_concat]
        · rw [waiting_ofEdges_self, nothing, List.append_nil]
          exact leads
        · exact (Arena.kinds_claim ..).trans kinds
        · rw [Draft.arena_claim, Arena.children_claim, children]
          exact .nil
      · apply old c member
        intro k grows
        cases grows
        exact same rfl
  | @reuse draft p q i kind links owned =>
      refine ⟨nofun, ?_⟩
      intro b member idle
      exact old b member nofun
  | @create draft made p q i kind links free created =>
      have other : ∀ b ∈ draft.graph.members, b ≠ q := fun b member =>
        ne_created created (present.lt_size b member)
      refine ⟨?_, ?_⟩
      · intro c k grows
        cases grows
        obtain ⟨parent, -⟩ := agenda.links _ List.mem_cons_self
        have distinct : ¬ (p = q ∧ p < made.arena.blocks.size) :=
          fun same => other p parent same.1
        rw [Draft.arena_addChild, Arena.children_addChild, Arena.kinds_addChild,
          if_neg distinct, if_neg distinct, block_created created]
        refine ⟨rfl, rfl, waiting_eq_nil fun link pending => other _ ?_⟩
        exact (agenda.links link (List.mem_cons_of_mem _ pending)).1
      · intro b member idle
        rcases (mem_created created).mp member with known | here
        · exact old b known nofun
        · exact (idle i (here ▸ rfl)).elim

/-! ## Whole runs -/

/-- The invariant of construction. -/
structure Sound (code : Arena n) (first : Fin n) (stage : Stage n) : Prop where
  membership : Membership code.blocks.size stage.draft
  ownership : Ownership code first stage.draft
  linkage : Linkage stage.draft
  agenda : Agenda code first stage
  runs : Runs code first stage
  edges : Edges code stage

/-- Every edit keeps the invariant as a whole. -/
theorem Sound.step (sound : Sound code first stage) (step : Step code stage next) :
    Sound code first next := by
  obtain ⟨membership, ownership, linkage, agenda, runs, edges⟩ := sound
  exact
    { membership := membership.step step
      ownership := ownership.step membership agenda step
      linkage := linkage.step membership ownership agenda step
      agenda := agenda.step step
      runs := runs.step membership agenda step
      edges := edges.step membership ownership agenda step }

/-- **Invariant.** Every stage of a construction is sound. -/
theorem sound_of_steps (free : ∀ i, code.Reaches first i → code.owner i = none)
    (steps : Steps code (Stage.initial code first) stage) : Sound code first stage := by
  induction steps with
  | refl => exact ⟨.initial, .initial free, .initial, .initial, .initial, .initial⟩
  | tail _ step ih => exact ih.step step

end Stage

/-! ## Finished graphs -/

/-- What a construction over `code` from `first` on leaves: blocks that are runs of the
instructions reached, each instruction in one of them, with the edges of its last
instruction each leading to the block that lists its destination. -/
structure Arena.Built (code : Arena n) (first : Fin n) (graph : Graph) (after : Arena n) :
    Prop where
  same : code.SameCode after
  membership : Stage.Membership code.blocks.size ⟨after, graph⟩
  ownership : Stage.Ownership code first ⟨after, graph⟩
  linkage : Stage.Linkage ⟨after, graph⟩
  entry : (after.block code.blocks.size).instrs.head? = some first
  chain : ∀ b ∈ graph.members, (after.block b).instrs.IsChain code.Continues
  starts : ∀ b ∈ graph.members, ∃ i, (after.block b).instrs.head? = some i ∧
    (code.instr i).address = after.address b ∧ code.Opens first i
  edges : ∀ b ∈ graph.members, ∃ last edges, (after.block b).instrs.getLast? = some last ∧
    (code.instr last).Leads edges ∧ (after.block b).kinds = edges.map (·.2) ∧
    List.Forall₂ (fun c edge => c ∈ graph.members ∧ edge.1 ∈ (after.block c).instrs)
      (after.block b).children edges

/-- A graph that is constructed is built. -/
theorem Graph.built_of_construct {code after : Arena n} {first : Fin n}
    {rest : List (Fin n)} {graph : Graph} (free : ∀ i ∈ first :: rest, code.owner i = none)
    (reached : ∀ i, code.Reaches first i → code.owner i = none)
    (constructed : Graph.construct (first :: rest) code = .ok graph after) :
    code.Built first graph after := by
  have steps := Graph.steps_of_construct free constructed
  have ready := (Stage.ready_initial (free first List.mem_cons_self)).steps steps
  obtain ⟨membership, ownership, linkage, agenda, runs, edges⟩ :=
    Stage.sound_of_steps reached steps
  have body : ∀ b, Stage.body ⟨⟨after, graph⟩, none, []⟩ b = (after.block b).instrs :=
    fun b => Stage.body_idle
  refine ⟨ready.same, membership, ownership, linkage, ?_, ?_, ?_, ?_⟩
  · exact body _ ▸ runs.entry
  · intro b member
    exact body b ▸ runs.chain b member
  · intro b member
    exact body b ▸ runs.starts b member
  · intro b member
    obtain ⟨last, recorded, progress⟩ := edges.closed b member nofun
    refine ⟨last, recorded, progress.ends, ?_, progress.kinds, ?_⟩
    · simpa [Stage.waiting] using progress.leads
    · simpa only [body] using progress.children

namespace Arena.Built

variable {code after : Arena n} {first : Fin n} {graph : Graph}

/-- An instruction of a block goes on to the next one of it, or ends the block. -/
theorem next_or_last (built : code.Built first graph after) {b : BlockId}
    (member : b ∈ graph.members) {i : Fin n} (listed : i ∈ (after.block b).instrs) :
    (∃ j ∈ (after.block b).instrs, code.Continues i j) ∨
      (after.block b).instrs.getLast? = some i := by
  obtain ⟨front, rest, split⟩ := List.append_of_mem listed
  have chain := built.chain b member
  rw [split] at chain ⊢
  cases rest with
  | nil => exact .inr List.getLast?_concat
  | cons j rest =>
      refine .inl ⟨j, by simp, ?_⟩
      exact (List.isChain_append_cons_cons.mp chain).2.1

/-- Where control may go from the end of a block, a child of it lists the instruction. -/
theorem child_of_flows (built : code.Built first graph after) {b : BlockId}
    (member : b ∈ graph.members) {i j : Fin n}
    (ends : (after.block b).instrs.getLast? = some i) (flows : code.Flows i j) :
    ∃ c ∈ (after.block b).children, c ∈ graph.members ∧ j ∈ (after.block c).instrs := by
  obtain ⟨last, edges, found, leads, -, children⟩ := built.edges b member
  rw [ends] at found
  cases found
  rw [Arena.Flows, leads.successors_eq] at flows
  obtain ⟨edge, listed, rfl⟩ := List.mem_map.mp flows
  obtain ⟨place, bound, rfl⟩ := List.getElem_of_mem listed
  have within := children.length_eq ▸ bound
  exact ⟨_, List.getElem_mem within, children.get within bound⟩

/-- Where control may go from a listed instruction, there is a listed one. -/
theorem listed_of_flows (built : code.Built first graph after) {b : BlockId}
    (member : b ∈ graph.members) {i j : Fin n} (listed : i ∈ (after.block b).instrs)
    (flows : code.Flows i j) : ∃ c ∈ graph.members, j ∈ (after.block c).instrs := by
  rcases built.next_or_last member listed with ⟨k, here, continues⟩ | ends
  · rw [Arena.Flows, Instruction.successors_of_not_endsBlock continues.goesOn,
      continues.follower] at flows
    rw [List.mem_singleton.mp flows]
    exact ⟨b, member, here⟩
  · obtain ⟨c, -, child, there⟩ := built.child_of_flows member ends flows
    exact ⟨c, child, there⟩

/-- Every instruction that can be reached is listed in a block of the graph. -/
theorem listed_of_reaches (built : code.Built first graph after) {i : Fin n}
    (reached : code.Reaches first i) :
    ∃ b ∈ graph.members, i ∈ (after.block b).instrs := by
  induction reached with
  | refl =>
      refine ⟨code.blocks.size, List.mem_of_mem_head? built.membership.entry, ?_⟩
      exact List.mem_of_mem_head? built.entry
  | tail _ flows ih =>
      obtain ⟨b, member, listed⟩ := ih
      exact built.listed_of_flows member listed flows

end Arena.Built

end ScriptFlow
