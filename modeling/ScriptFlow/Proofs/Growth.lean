import Mathlib.Data.List.Nodup
import ScriptFlow.Proofs.Stage

/-!
# What construction preserves

Three parts of the invariant of construction, with what each edit of the draft does
to them:

* `Stage.Membership`: the blocks of the graph are the newest ones of the arena, and no
  two of them have the same address;
* `Stage.Ownership`: an instruction that can be reached belongs to a block just if the
  block lists it, once;
* `Stage.Linkage`: an edge is recorded as often at one end as at the other, and both
  ends are blocks of the graph.

All that is asked of the arena is that nothing reached from the entry has a block
yet. `Stage.Agenda` says the same of what is left to do, and carries the three parts
over a step.
-/

namespace ScriptFlow.Stage

variable {n : Nat} {code : Arena n} {first : Fin n} {stage next : Stage n}

/-! ## The blocks of the graph -/

/-- The graph starts with the block `base`, and holds none that is older. Its blocks
are blocks of the arena, at different addresses. -/
structure Membership (base : Nat) (draft : Draft n) : Prop where
  entry : draft.graph.members.head? = some base
  base_le : ∀ b ∈ draft.graph.members, base ≤ b
  lt_size : ∀ b ∈ draft.graph.members, b < draft.arena.blocks.size
  distinct : draft.graph.members.Pairwise fun b c =>
    draft.arena.address b ≠ draft.arena.address c

/-- At the start the graph has the block at the entry, which is the first new one. -/
theorem Membership.initial : Membership code.blocks.size (initial code first).draft := by
  refine ⟨rfl, ?_, ?_, List.pairwise_singleton _ _⟩
  · intro b member
    exact Nat.le_of_eq (List.mem_singleton.mp member).symm
  · intro b member
    rw [List.mem_singleton.mp member]
    show code.blocks.size < (code.newBlock _).blocks.size
    rw [Arena.size_newBlock]
    exact Nat.lt_succ_self _

/-- The block at the entry is empty at first. -/
theorem block_initial (code : Arena n) (first : Fin n) :
    (initial code first).draft.arena.block code.blocks.size =
      { address := (code.instr first).address } := by
  show (code.newBlock _).block _ = _
  rw [Arena.block_newBlock, if_pos rfl]

section Created

variable {draft made : Draft n} {address : Address} {c : BlockId}

/-- A new block is empty, and stands where it was asked to. -/
theorem block_created (created : Draft.create address draft = .ok c made) :
    made.arena.block c = { address } := by
  obtain ⟨new, arena, -⟩ := Draft.create_of_ok created
  rw [arena, Arena.block_newBlock, if_pos new]

/-- Creating a block leaves those that there are as they were. -/
theorem block_of_created (created : Draft.create address draft = .ok c made)
    {b : BlockId} (bound : b < draft.arena.blocks.size) :
    made.arena.block b = draft.arena.block b := by
  obtain ⟨new, arena, -⟩ := Draft.create_of_ok created
  rw [arena, Arena.block_newBlock, if_neg (Nat.ne_of_lt bound)]

/-- A block that is created stands at the address that was asked for. -/
theorem address_created (created : Draft.create address draft = .ok c made) :
    made.arena.address c = address := by
  rw [Arena.address, block_created created]

theorem address_of_created (created : Draft.create address draft = .ok c made)
    {b : BlockId} (bound : b < draft.arena.blocks.size) :
    made.arena.address b = draft.arena.address b := by
  rw [Arena.address, block_of_created created bound, Arena.address]

/-- A block that is created owns nothing. -/
theorem owner_created (created : Draft.create address draft = .ok c made) (i : Fin n) :
    made.arena.owner i = draft.arena.owner i := by
  rw [(Draft.create_of_ok created).2.1, Arena.owner_newBlock]

/-- The graph has one block more, the one that is created. -/
theorem mem_created (created : Draft.create address draft = .ok c made) {b : BlockId} :
    b ∈ made.graph.members ↔ b ∈ draft.graph.members ∨ b = c := by
  rw [(Draft.create_of_ok created).2.2, List.mem_append, List.mem_singleton]

/-- The block that is created is none of those that were in use. -/
theorem ne_created (created : Draft.create address draft = .ok c made) {b : BlockId}
    (bound : b < draft.arena.blocks.size) : b ≠ c := by
  rw [(Draft.create_of_ok created).1]
  exact Nat.ne_of_lt bound

theorem created_lt_size (created : Draft.create address draft = .ok c made) :
    c < made.arena.blocks.size := by
  obtain ⟨new, arena, -⟩ := Draft.create_of_ok created
  rw [arena, Arena.size_newBlock, new]
  exact Nat.lt_succ_self _

section Stored

variable (created : Draft.create address draft = .ok c made)
  (stored : ∀ b ∈ draft.graph.members, b < draft.arena.blocks.size)

include created stored

theorem lt_size_created : ∀ b ∈ made.graph.members, b < made.arena.blocks.size := by
  intro b member
  rcases (mem_created created).mp member with old | rfl
  · rw [(Draft.create_of_ok created).2.1, Arena.size_newBlock]
    exact Nat.lt_succ_of_lt (stored b old)
  · exact created_lt_size created

/-- A new block stands apart from the others. -/
theorem distinct_created (distinct : draft.graph.members.Pairwise fun b d =>
      draft.arena.address b ≠ draft.arena.address d) :
    made.graph.members.Pairwise fun b d => made.arena.address b ≠ made.arena.address d := by
  have vacant := Draft.vacant_of_create created
  have old : ∀ b ∈ draft.graph.members, made.arena.address b = draft.arena.address b :=
    fun b member => address_of_created created (stored b member)
  rw [(Draft.create_of_ok created).2.2, List.pairwise_append]
  refine ⟨?_, List.pairwise_singleton _ _, ?_⟩
  · apply distinct.imp_of_mem
    intro b d first second
    rw [old b first, old d second]
    exact id
  · intro b member d fresh
    rw [List.mem_singleton.mp fresh, old b member, address_created created]
    exact vacant b member

end Stored

end Created

theorem Membership.claim {base : Nat} {draft : Draft n} (sound : Membership base draft)
    (b : BlockId) (i : Fin n) : Membership base (draft.claim b i) :=
  ⟨sound.entry, sound.base_le, by simpa using sound.lt_size, by simpa using sound.distinct⟩

theorem Membership.addChild {base : Nat} {draft : Draft n} (sound : Membership base draft)
    (parent child : BlockId) (kind : EdgeKind) :
    Membership base (draft.addChild parent child kind) :=
  ⟨sound.entry, sound.base_le, by simpa using sound.lt_size, by simpa using sound.distinct⟩

/-- A block that is created stands apart from the others, since creating it would have failed
otherwise. -/
theorem Membership.create {base : Nat} {draft made : Draft n} {address : Address}
    {c : BlockId} (sound : Membership base draft)
    (created : Draft.create address draft = .ok c made) : Membership base made := by
  obtain ⟨new, -, members⟩ := Draft.create_of_ok created
  have entered : base ∈ draft.graph.members := List.mem_of_mem_head? sound.entry
  refine ⟨?_, ?_, lt_size_created created sound.lt_size,
    distinct_created created sound.lt_size sound.distinct⟩
  · rw [members, List.head?_append, sound.entry]
    rfl
  · intro b member
    rcases (mem_created created).mp member with old | fresh
    · exact sound.base_le b old
    · rw [fresh, new]
      exact Nat.le_of_lt (sound.lt_size base entered)

/-- Every edit keeps the blocks of the graph apart. -/
theorem Membership.step {base : Nat} (sound : Membership base stage.draft)
    (step : Step code stage next) : Membership base next.draft := by
  cases step with
  | extend => exact sound.claim _ _
  | close => exact sound.claim _ _
  | reuse => exact sound.addChild _ _ _
  | create _ created => exact (sound.create created).addChild _ _ _

/-! ## Ownership of instructions -/

/-- Among the instructions that can be reached, a block of the graph owns those it
lists, each once, and no other block owns any. The rest is as it was. -/
structure Ownership (code : Arena n) (first : Fin n) (draft : Draft n) : Prop where
  listed : ∀ b ∈ draft.graph.members, ∀ i ∈ (draft.arena.block b).instrs,
    draft.arena.owner i = some b ∧ code.Reaches first i
  owned : ∀ i b, code.Reaches first i → draft.arena.owner i = some b →
    b ∈ draft.graph.members ∧ i ∈ (draft.arena.block b).instrs
  once : ∀ b ∈ draft.graph.members, (draft.arena.block b).instrs.Nodup
  elsewhere : ∀ i, ¬ code.Reaches first i → draft.arena.owner i = code.owner i

/-- At the start no block of the graph lists or owns anything. -/
theorem Ownership.initial (free : ∀ i, code.Reaches first i → code.owner i = none) :
    Ownership code first (initial code first).draft := by
  refine ⟨?_, ?_, ?_, fun i _ => rfl⟩
  · intro b member i listed
    rw [List.mem_singleton.mp member, block_initial] at listed
    cases listed
  · intro i b reached owned
    have unowned : (Stage.initial code first).draft.arena.owner i = none := free i reached
    rw [unowned] at owned
    cases owned
  · intro b member
    rw [List.mem_singleton.mp member, block_initial]
    exact List.nodup_nil

/-- A block lists what it did, and what it claims. -/
theorem mem_instrs_claim {arena : Arena n} {b c : BlockId} {i j : Fin n}
    (bound : b < arena.blocks.size) :
    j ∈ ((arena.claim b i).block c).instrs ↔
      j ∈ (arena.block c).instrs ∨ b = c ∧ j = i := by
  rw [Arena.instrs_claim]
  by_cases here : b = c
  · subst here
    simp [bound]
  · simp [here]

/-- An instruction without an owner may be claimed: no block lists it yet. -/
theorem Ownership.claim {draft : Draft n} {b : BlockId} {i : Fin n}
    (sound : Ownership code first draft) (member : b ∈ draft.graph.members)
    (bound : b < draft.arena.blocks.size) (free : draft.arena.owner i = none)
    (reached : code.Reaches first i) : Ownership code first (draft.claim b i) := by
  have other : ∀ j c, draft.arena.owner j = some c → i ≠ j := by
    intro j c owned same
    rw [← same, free] at owned
    cases owned
  refine ⟨?_, ?_, ?_, ?_⟩
  · intro c present j listed
    rw [Draft.arena_claim, mem_instrs_claim bound] at listed
    rw [Draft.arena_claim, Arena.owner_claim]
    rcases listed with listed | ⟨rfl, rfl⟩
    · obtain ⟨owned, reached⟩ := sound.listed c present j listed
      rw [if_neg (other j c owned)]
      exact ⟨owned, reached⟩
    · exact ⟨if_pos rfl, reached⟩
  · intro j c reaches owned
    rw [Draft.arena_claim, Arena.owner_claim] at owned
    rw [Draft.arena_claim, mem_instrs_claim bound]
    split at owned
    next same =>
      cases owned
      exact ⟨member, .inr ⟨rfl, same.symm⟩⟩
    next =>
      obtain ⟨present, listed⟩ := sound.owned j c reaches owned
      exact ⟨present, .inl listed⟩
  · intro c present
    have unlisted : i ∉ (draft.arena.block c).instrs := fun listed =>
      other i c (sound.listed c present i listed).1 rfl
    rw [Draft.arena_claim, Arena.instrs_claim]
    split
    next same =>
      rw [same.1]
      exact List.nodup_append.mpr ⟨sound.once c present, List.nodup_singleton i, by
        intro j listed k here same
        rw [same, List.mem_singleton.mp here] at listed
        exact unlisted listed⟩
    next => exact sound.once c present
  · intro j unreached
    rw [Draft.arena_claim, Arena.owner_claim, if_neg]
    · exact sound.elsewhere j unreached
    · intro same
      exact unreached (same ▸ reached)

theorem Ownership.addChild {draft : Draft n} (sound : Ownership code first draft)
    (parent child : BlockId) (kind : EdgeKind) :
    Ownership code first (draft.addChild parent child kind) :=
  ⟨by simpa using sound.listed, by simpa using sound.owned, by simpa using sound.once,
    sound.elsewhere⟩

/-- A block that is created lists nothing, so ownership stays as it was. -/
theorem Ownership.create {base : Nat} {draft made : Draft n} {address : Address}
    {c : BlockId} (sound : Ownership code first draft) (present : Membership base draft)
    (created : Draft.create address draft = .ok c made) : Ownership code first made := by
  have empty : (made.arena.block c).instrs = [] := by rw [block_created created]
  have old : ∀ b ∈ draft.graph.members, made.arena.block b = draft.arena.block b :=
    fun b member => block_of_created created (present.lt_size b member)
  refine ⟨?_, ?_, ?_, ?_⟩
  · intro b member i listed
    rw [owner_created created]
    rcases (mem_created created).mp member with known | rfl
    · rw [old b known] at listed
      exact sound.listed b known i listed
    · rw [empty] at listed
      cases listed
  · intro i b reached owned
    rw [owner_created created] at owned
    obtain ⟨known, listed⟩ := sound.owned i b reached owned
    exact ⟨(mem_created created).mpr (.inl known), (old b known).symm ▸ listed⟩
  · intro b member
    rcases (mem_created created).mp member with known | rfl
    · rw [old b known]
      exact sound.once b known
    · rw [empty]
      exact List.nodup_nil
  · intro i unreached
    rw [owner_created created]
    exact sound.elsewhere i unreached

/-! ## Edges -/

/-- The blocks of the graph have edges to each other only, and each of them is recorded
at both ends. -/
structure Linkage (draft : Draft n) : Prop where
  children : ∀ b ∈ draft.graph.members, ∀ c ∈ (draft.arena.block b).children,
    c ∈ draft.graph.members
  parents : ∀ c ∈ draft.graph.members, ∀ b ∈ (draft.arena.block c).parents,
    b ∈ draft.graph.members
  paired : ∀ b ∈ draft.graph.members, ∀ c ∈ draft.graph.members,
    (draft.arena.block b).children.count c = (draft.arena.block c).parents.count b

/-- At the start there is no edge. -/
theorem Linkage.initial : Linkage (Stage.initial code first).draft := by
  refine ⟨?_, ?_, ?_⟩
  · intro b member c listed
    rw [List.mem_singleton.mp member, block_initial] at listed
    cases listed
  · intro c member b listed
    rw [List.mem_singleton.mp member, block_initial] at listed
    cases listed
  · intro b first c second
    rw [List.mem_singleton.mp first, List.mem_singleton.mp second, block_initial]

theorem Linkage.claim {draft : Draft n} (sound : Linkage draft) (b : BlockId) (i : Fin n) :
    Linkage (draft.claim b i) :=
  ⟨by simpa using sound.children, by simpa using sound.parents, by simpa using sound.paired⟩

/-- Both ends count a new edge: the counts go up by one just if it is one from `b` to `c`. -/
theorem paired_addChild {arena : Arena n} {p q b c : BlockId} (kind : EdgeKind)
    (lower : p < arena.blocks.size) (upper : q < arena.blocks.size)
    (paired : (arena.block b).children.count c = (arena.block c).parents.count b) :
    ((arena.addChild p q kind).block b).children.count c =
      ((arena.addChild p q kind).block c).parents.count b := by
  rw [Arena.children_addChild, Arena.parents_addChild]
  by_cases left : p = b <;> by_cases right : q = c
  · subst left right
    simp [lower, upper, paired]
  · subst left
    simp [lower, right, paired]
  · subst right
    simp [upper, left, paired]
  · simp [left, right, paired]

/-- An edge between blocks of the graph is recorded at both of its ends. -/
theorem Linkage.addChild {base : Nat} {draft : Draft n} {p q : BlockId} (kind : EdgeKind)
    (sound : Linkage draft) (present : Membership base draft)
    (parent : p ∈ draft.graph.members) (child : q ∈ draft.graph.members) :
    Linkage (draft.addChild p q kind) := by
  have lower := present.lt_size p parent
  have upper := present.lt_size q child
  refine ⟨?_, ?_, ?_⟩
  · intro b member c listed
    rw [Draft.arena_addChild, Arena.children_addChild] at listed
    split at listed
    next same =>
      rcases List.mem_append.mp listed with old | new
      · exact sound.children p parent c old
      · exact List.mem_singleton.mp new ▸ child
    next => exact sound.children b member c listed
  · intro c member b listed
    rw [Draft.arena_addChild, Arena.parents_addChild] at listed
    split at listed
    next same =>
      rcases List.mem_append.mp listed with old | new
      · exact sound.parents q child b old
      · exact List.mem_singleton.mp new ▸ parent
    next => exact sound.parents c member b listed
  · intro b first c second
    exact paired_addChild kind lower upper (sound.paired b first c second)

/-- A block that is created has no edge yet. -/
theorem Linkage.create {base : Nat} {draft made : Draft n} {address : Address}
    {c : BlockId} (sound : Linkage draft) (present : Membership base draft)
    (created : Draft.create address draft = .ok c made) : Linkage made := by
  have empty := block_created created
  have old : ∀ b ∈ draft.graph.members, made.arena.block b = draft.arena.block b :=
    fun b member => block_of_created created (present.lt_size b member)
  have unknown : c ∉ draft.graph.members := fun member =>
    ne_created created (present.lt_size c member) rfl
  refine ⟨?_, ?_, ?_⟩
  · intro b member d listed
    rcases (mem_created created).mp member with known | rfl
    · rw [old b known] at listed
      exact (mem_created created).mpr (.inl (sound.children b known d listed))
    · rw [empty] at listed
      cases listed
  · intro d member b listed
    rcases (mem_created created).mp member with known | rfl
    · rw [old d known] at listed
      exact (mem_created created).mpr (.inl (sound.parents d known b listed))
    · rw [empty] at listed
      cases listed
  · intro b parent d child
    rcases (mem_created created).mp parent with above | rfl <;>
      rcases (mem_created created).mp child with below | rfl
    · rw [old b above, old d below]
      exact sound.paired b above d below
    · rw [old b above, empty]
      exact List.count_eq_zero.mpr fun listed => unknown (sound.children b above _ listed)
    · rw [old d below, empty]
      exact (List.count_eq_zero.mpr fun listed =>
        unknown (sound.parents d below _ listed)).symm
    · rw [empty]

/-! ## What is left to do -/

/-- The growing block and the pending edges belong to the graph, and lead on to
instructions that can be reached. A pending edge leads to where a block starts, unless
there is one already. -/
structure Agenda (code : Arena n) (first : Fin n) (stage : Stage n) : Prop where
  growing : ∀ b i, stage.growing = some (b, i) →
    b ∈ stage.draft.graph.members ∧ code.Reaches first i
  links : ∀ link ∈ stage.links, link.parent ∈ stage.draft.graph.members ∧
    code.Reaches first link.destination
  opens : ∀ link ∈ stage.links, code.Opens first link.destination ∨
    stage.draft.arena.owner link.destination ≠ none

theorem Agenda.initial : Agenda code first (Stage.initial code first) := by
  refine ⟨?_, ?_, ?_⟩
  · intro b i grows
    cases grows
    exact ⟨List.mem_singleton_self _, .refl⟩
  · intro link pending
    cases pending
  · intro link pending
    cases pending

/-- An instruction keeps its block. -/
theorem owned_claim {draft : Draft n} {i : Fin n} (b : BlockId) (j : Fin n)
    (owned : draft.arena.owner i ≠ none) : (draft.claim b j).arena.owner i ≠ none := by
  rw [Draft.arena_claim, Arena.owner_claim]
  split
  next => exact Option.some_ne_none b
  next => exact owned

/-- What an edit puts on the agenda leads on from an instruction that can be reached. -/
theorem Agenda.step (agenda : Agenda code first stage) (step : Step code stage next) :
    Agenda code first next := by
  cases step with
  | @extend draft b i next links free continues vacant =>
      obtain ⟨member, reached⟩ := agenda.growing b i rfl
      refine ⟨?_, agenda.links, ?_⟩
      · intro c j grows
        cases grows
        exact ⟨member, reached.tail continues.flows⟩
      · intro link pending
        exact (agenda.opens link pending).imp_right (owned_claim b i)
  | @close draft b i links edges free leads waits =>
      obtain ⟨member, reached⟩ := agenda.growing b i rfl
      refine ⟨nofun, ?_, ?_⟩
      · intro link pending
        rcases List.mem_append.mp pending with new | old
        · obtain ⟨edge, listed, rfl⟩ := List.mem_map.mp new
          exact ⟨member, reached.tail (Arena.flows_of_leads leads listed)⟩
        · exact agenda.links link old
      · intro link pending
        rcases List.mem_append.mp pending with new | old
        · obtain ⟨edge, listed, rfl⟩ := List.mem_map.mp new
          rcases waits with ends | taken
          · exact .inl (.exit reached ends (Arena.flows_of_leads leads listed))
          · exact (taken edge listed).imp_left .leader
        · exact (agenda.opens link old).imp_right (owned_claim b i)
  | @reuse draft p c d kind links owned =>
      refine ⟨nofun, ?_, ?_⟩
      · intro link pending
        exact agenda.links link (List.mem_cons_of_mem _ pending)
      · intro link pending
        exact agenda.opens link (List.mem_cons_of_mem _ pending)
  | @create draft made p c d kind links free created =>
      obtain ⟨-, reached⟩ := agenda.links _ List.mem_cons_self
      refine ⟨?_, ?_, ?_⟩
      · intro b i grows
        cases grows
        exact ⟨(mem_created created).mpr (.inr rfl), reached⟩
      · intro link pending
        obtain ⟨member, reached⟩ := agenda.links link (List.mem_cons_of_mem _ pending)
        exact ⟨(mem_created created).mpr (.inl member), reached⟩
      · intro link pending
        show _ ∨ made.arena.owner _ ≠ none
        rw [owner_created created]
        exact agenda.opens link (List.mem_cons_of_mem _ pending)

/-- Every edit keeps ownership: what it claims has no owner and can be reached. -/
theorem Ownership.step {base : Nat} (sound : Ownership code first stage.draft)
    (present : Membership base stage.draft) (agenda : Agenda code first stage)
    (step : Step code stage next) : Ownership code first next.draft := by
  cases step with
  | @extend draft b i next links free continues vacant =>
      obtain ⟨member, reached⟩ := agenda.growing b i rfl
      exact sound.claim member (present.lt_size b member) free reached
  | @close draft b i links edges free leads waits =>
      obtain ⟨member, reached⟩ := agenda.growing b i rfl
      exact sound.claim member (present.lt_size b member) free reached
  | reuse => exact sound.addChild _ _ _
  | create _ created => exact (sound.create present created).addChild _ _ _

/-- Every edit keeps edges paired: those that it records lie between blocks of the graph. -/
theorem Linkage.step {base : Nat} (sound : Linkage stage.draft)
    (present : Membership base stage.draft) (ownership : Ownership code first stage.draft)
    (agenda : Agenda code first stage) (step : Step code stage next) :
    Linkage next.draft := by
  cases step with
  | extend => exact sound.claim _ _
  | close => exact sound.claim _ _
  | @reuse draft p c d kind links owned =>
      obtain ⟨parent, reached⟩ := agenda.links _ List.mem_cons_self
      exact sound.addChild kind present parent (ownership.owned d c reached owned).1
  | @create draft made p c d kind links free created =>
      obtain ⟨parent, -⟩ := agenda.links _ List.mem_cons_self
      exact (sound.create present created).addChild kind (present.create created)
        ((mem_created created).mpr (.inl parent)) ((mem_created created).mpr (.inr rfl))

end ScriptFlow.Stage
