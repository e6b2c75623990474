import Mathlib.Data.List.Nodup
import ScriptFlow.Proofs.Passes
import ScriptFlow.Session

/-!
# Coherent arenas

In a coherent arena an edge is recorded as often at one end as at the other and has a
kind, and an instruction that a block lists belongs to it (`Arena.Coherent`). Every change
that a caller may ask for keeps an arena coherent and leaves instructions with the blocks
they have (`Arena.Upholds`), also where it fails halfway: a construction that is aborted
upholds the arena because each of its edits does.

`Session.coherent_of_perform` puts this together for any number of changes to an arena
that starts without blocks.
-/

namespace ScriptFlow

variable {n : Nat}

namespace Arena

/-- The owners of instructions are blocks of the arena. -/
def Grounded (arena : Arena n) : Prop :=
  ∀ i b, arena.owner i = some b → b < arena.blocks.size

/-- Where nothing is owned, no owner is missing. -/
theorem grounded_of_unowned {arena : Arena n} (free : ∀ i, arena.owner i = none) :
    arena.Grounded := by
  intro i b owned
  rw [free] at owned
  cases owned

/-- Every edge is recorded at both ends and has a kind, and a block owns the instructions
that it lists, each listed once. -/
structure Coherent (arena : Arena n) : Prop where
  kinds : ∀ b, (arena.block b).children.length = (arena.block b).kinds.length
  paired : ∀ b c, (arena.block b).children.count c = (arena.block c).parents.count b
  owned : ∀ b, ∀ i ∈ (arena.block b).instrs, arena.owner i = some b
  once : ∀ b, (arena.block b).instrs.Nodup

/-- An arena without blocks is coherent. -/
theorem coherent_of_bare {arena : Arena n} (bare : arena.blocks = #[]) : arena.Coherent := by
  have empty : ∀ b, arena.block b = { address := 0 } := fun b =>
    block_of_size_le (by rw [bare]; exact Nat.zero_le b)
  constructor <;> simp [empty]

/-- No instruction is listed by two blocks. -/
theorem Coherent.nodup {arena : Arena n} (sound : arena.Coherent) (blocks : List BlockId)
    (distinct : blocks.Nodup) :
    (blocks.flatMap fun b => (arena.block b).instrs).Nodup := by
  rw [List.nodup_flatMap]
  refine ⟨fun b _ => sound.once b, distinct.imp ?_⟩
  intro b c apart i here there
  have owner := sound.owned b i here
  rw [sound.owned c i there] at owner
  exact apart (Option.some.inj owner).symm

/-- What a change to an arena keeps: coherence, and the owners of instructions. -/
structure Upholds (before after : Arena n) : Prop where
  size : before.blocks.size ≤ after.blocks.size
  owner : ∀ i b, before.owner i = some b → after.owner i = some b
  grounded : before.Grounded → after.Grounded
  coherent : before.Grounded → before.Coherent → after.Coherent

instance : Std.Refl (Upholds (n := n)) := ⟨fun _ => ⟨Nat.le_refl _, fun _ _ => id, id, fun _ => id⟩⟩

instance : IsTrans (Arena n) Upholds := ⟨fun _ _ _ early late =>
  { size := Nat.le_trans early.size late.size
    owner := fun i b owned => late.owner i b (early.owner i b owned)
    grounded := fun grounded => late.grounded (early.grounded grounded)
    coherent := fun grounded sound =>
      late.coherent (early.grounded grounded) (early.coherent grounded sound) }⟩

end Arena

/-- The blocks list the same instructions and neighbours, and as many kinds of edges. -/
structure Block.SameLists (old new : Block n) : Prop where
  instrs : new.instrs = old.instrs
  parents : new.parents = old.parents
  children : new.children = old.children
  kinds : new.kinds.length = old.kinds.length

theorem Block.SameLists.refl (block : Block n) : block.SameLists block := ⟨rfl, rfl, rfl, rfl⟩

namespace Arena.Upholds

variable {before after : Arena n}

/-- A change that keeps the lists of all blocks, and gives instructions without an owner to
blocks of the arena at most. -/
theorem of_sameLists (size : before.blocks.size ≤ after.blocks.size)
    (lists : ∀ b, (before.block b).SameLists (after.block b))
    (kept : ∀ i b, before.owner i = some b → after.owner i = some b)
    (given : ∀ i b, after.owner i = some b →
      before.owner i = some b ∨ b < after.blocks.size) : before.Upholds after := by
  refine ⟨size, kept, ?_, ?_⟩
  · intro grounded i b owned
    rcases given i b owned with old | bound
    · exact Nat.lt_of_lt_of_le (grounded i b old) size
    · exact bound
  · intro _ sound
    constructor
    · intro b
      rw [(lists b).children, (lists b).kinds]
      exact sound.kinds b
    · intro b c
      rw [(lists b).children, (lists c).parents]
      exact sound.paired b c
    · intro b i listed
      rw [(lists b).instrs] at listed
      exact kept i b (sound.owned b i listed)
    · intro b
      rw [(lists b).instrs]
      exact sound.once b

/-- A new block is listed nowhere, and lists nothing. -/
theorem newBlock (arena : Arena n) (address : Address) :
    arena.Upholds (arena.newBlock address) := by
  refine of_sameLists ?_ ?_ (fun _ _ => id) (fun _ _ => .inl)
  · rw [size_newBlock]
    exact Nat.le_succ _
  · intro b
    rw [block_newBlock]
    split
    next new =>
      rw [block_of_size_le (Nat.le_of_eq new.symm)]
      exact ⟨rfl, rfl, rfl, rfl⟩
    next => exact .refl _

/-- A change that keeps the lists of a block upholds the arena. -/
theorem modifyBlock (arena : Arena n) (b : BlockId) (change : Block n → Block n)
    (lists : (arena.block b).SameLists (change (arena.block b))) :
    arena.Upholds (arena.modifyBlock b change) := by
  refine of_sameLists ?_ ?_ (fun _ _ => id) (fun _ _ => .inl)
  · rw [size_modifyBlock]
  · intro c
    rw [block_modifyBlock]
    split
    next same => exact same.1 ▸ lists
    next => exact .refl _

theorem setKind (arena : Arena n) (b : BlockId) (slot : Nat) (kind : EdgeKind) :
    arena.Upholds (arena.setKind b slot kind) :=
  modifyBlock arena b (fun block => { block with kinds := block.kinds.set slot kind })
    ⟨rfl, rfl, rfl, List.length_set⟩

theorem addControl (arena : Arena n) (b : BlockId) (control : Control) :
    arena.Upholds (arena.addControl b control) :=
  modifyBlock arena b (fun block => { block with controls := block.controls ++ [control] })
    ⟨rfl, rfl, rfl, rfl⟩

/-- An instruction without an owner may be given one that is in use. -/
theorem setOwner {arena : Arena n} {i : Fin n} {b : Option BlockId}
    (free : arena.owner i = none) (bound : ∀ c ∈ b, c < arena.blocks.size) :
    arena.Upholds (arena.modifyInstr i ({ · with block := b })) := by
  have owners : ∀ j, (arena.modifyInstr i ({ · with block := b })).owner j =
      if i = j then b else arena.owner j := by
    intro j
    rw [Arena.owner, instr_modifyInstr]
    split <;> rfl
  refine of_sameLists (Nat.le_refl _) (fun c => .refl _) ?_ ?_
  · intro j c owned
    have other : i ≠ j := by
      rintro rfl
      rw [free] at owned
      cases owned
    rw [owners, if_neg other, owned]
  · intro j c owned
    rw [owners] at owned
    split at owned
    next => exact .inr (bound c owned)
    next => exact .inl owned

/-- An instruction without an owner may be claimed by a block that is in use. -/
theorem claim {arena : Arena n} {b : BlockId} {i : Fin n} (bound : b < arena.blocks.size)
    (free : arena.owner i = none) : arena.Upholds (arena.claim b i) := by
  have other : ∀ j c, arena.owner j = some c → i ≠ j := by
    rintro j c owned rfl
    rw [free] at owned
    cases owned
  have kept : ∀ j c, arena.owner j = some c → (arena.claim b i).owner j = some c := by
    intro j c owned
    rw [owner_claim, if_neg (other j c owned), owned]
  refine ⟨by rw [size_claim], kept, ?_, ?_⟩
  · intro grounded j c owned
    rw [size_claim]
    rw [owner_claim] at owned
    split at owned
    next => cases owned; exact bound
    next => exact grounded j c owned
  · intro _ sound
    refine ⟨by simpa using sound.kinds, by simpa using sound.paired, ?_, ?_⟩
    · intro c j listed
      rcases (Stage.mem_instrs_claim bound).mp listed with old | ⟨rfl, rfl⟩
      · exact kept j c (sound.owned c j old)
      · exact owner_claim_self ..
    · intro c
      have unlisted : i ∉ (arena.block c).instrs := fun listed =>
        other i c (sound.owned c i listed) rfl
      rw [instrs_claim]
      split
      next same =>
        rw [same.1, List.nodup_append_comm, List.singleton_append, List.nodup_cons]
        exact ⟨unlisted, sound.once c⟩
      next => exact sound.once c

/-- An edge between two blocks of the arena is counted at both of them. -/
theorem addChild {arena : Arena n} {p c : BlockId} (kind : EdgeKind)
    (parent : p < arena.blocks.size) (child : arena.Grounded → c < arena.blocks.size) :
    arena.Upholds (arena.addChild p c kind) := by
  refine ⟨by rw [size_addChild], fun _ _ => id, ?_, ?_⟩
  · intro grounded i b owned
    rw [size_addChild]
    exact grounded i b owned
  · intro grounded sound
    have child := child grounded
    refine ⟨?_, ?_, by simpa using sound.owned, by simpa using sound.once⟩
    · intro b
      have kinds := sound.kinds b
      rw [children_addChild, kinds_addChild]
      split
      next same => simp [same.1, kinds]
      next => exact kinds
    · exact fun b d => Stage.paired_addChild kind parent child (sound.paired b d)

end Arena.Upholds

/-- A change that gives an instruction an owner upholds the arena if it does so where the
instruction has none. -/
theorem Arena.upholds_unlessOwned {arena : Arena n} {i : Fin n} {change : Arena n → Arena n}
    (upholds : arena.owner i = none → arena.Upholds (change arena)) :
    arena.Upholds (left (unlessOwned i change arena)) := by
  cases ran : unlessOwned i change arena with
  | ok _ after =>
      obtain ⟨free, rfl⟩ := unlessOwned_of_ok ran
      exact upholds free
  | error fault after =>
      rw [unlessOwned_of_error ran]
      exact Std.Refl.refl arena

/-! ## Linking -/

namespace Arena.Upholds

variable {before after : Arena n}

/-- A change to instructions that keeps their owners. -/
theorem of_owner (blocks : after.blocks = before.blocks)
    (owner : ∀ i, after.owner i = before.owner i) : before.Upholds after := by
  refine of_sameLists (by rw [blocks]) ?_ ?_ ?_
  · intro b
    have same : after.block b = before.block b := by rw [Arena.block, blocks, Arena.block]
    exact same ▸ .refl _
  · exact fun i b owned => (owner i).trans owned
  · exact fun i b owned => .inl ((owner i).symm.trans owned)

/-- Linking changes instructions, but none of their owners. -/
theorem resolves (resolves : before.Resolves after) : before.Upholds after :=
  of_owner resolves.blocks resolves.owner

theorem chain (items : List (Fin n)) (arena : Arena n) :
    arena.Upholds (Listing.chain items arena) := by
  apply of_owner (Listing.blocks_chain items arena)
  intro i
  obtain ⟨follower, same⟩ := Listing.instr_chain items arena i
  rw [Arena.owner, same, Arena.owner]

end Arena.Upholds

theorem Listing.upholds_link (listing : Listing n) : Sustains Arena.Upholds listing.link := by
  unfold Listing.link
  split
  next => exact sustains_pure listing
  next =>
    refine (sustains_modify (.chain listing.items)).bind fun _ => ?_
    refine (sustains_modify fun arena => .resolves (listing.stampEntry_resolves arena)).bind ?_
    intro _
    have resolving : Sustains Arena.Upholds (listing.resolveAll listing.items) := fun before =>
      .resolves (Listing.sustains_resolveAll listing.items before).resolves
    exact resolving.bind fun _ => sustains_pure _

/-! ## Construction -/

namespace Stage

variable {code : Arena n} {first : Fin n} {stage next : Stage n} {base : Nat}

/-- Every edit of a construction upholds the arena. -/
theorem upholds_step (present : Membership base stage.draft) (agenda : Agenda code first stage)
    (step : Step code stage next) : stage.draft.arena.Upholds next.draft.arena := by
  cases step with
  | @extend draft b i next links free continues vacant =>
      exact .claim (present.lt_size b (agenda.growing b i rfl).1) free
  | @close draft b i links edges free leads waits =>
      exact .claim (present.lt_size b (agenda.growing b i rfl).1) free
  | @reuse draft p c d kind links owned =>
      have parent := present.lt_size p (agenda.links _ List.mem_cons_self).1
      exact .addChild kind parent fun grounded => grounded d c owned
  | @create draft made p c d kind links free created =>
      have parent := (present.create created).lt_size p
        ((mem_created created).mpr (.inl (agenda.links _ List.mem_cons_self).1))
      have child := (present.create created).lt_size c ((mem_created created).mpr (.inr rfl))
      have upholds : draft.arena.Upholds made.arena := by
        rw [(Draft.create_of_ok created).2.1]
        exact .newBlock ..
      exact IsTrans.trans _ _ _ upholds (.addChild kind parent fun _ => child)

/-- A construction upholds the arena at every stage. -/
theorem upholds_of_steps (steps : Steps code (initial code first) stage) :
    code.Upholds stage.draft.arena ∧ Membership code.blocks.size stage.draft ∧
      Agenda code first stage := by
  induction steps with
  | refl => exact ⟨.newBlock .., .initial, .initial⟩
  | tail _ step ih =>
      obtain ⟨upholds, present, agenda⟩ := ih
      exact ⟨IsTrans.trans _ _ _ upholds (upholds_step present agenda step), present.step step,
        agenda.step step⟩

/-- A construction that fails claims at most one more instruction. -/
theorem upholds_of_fails {fault : Fault} {draft : Draft n}
    (present : Membership base stage.draft) (agenda : Agenda code first stage)
    (fails : Fails code stage fault draft) : stage.draft.arena.Upholds draft.arena := by
  cases fails with
  | @malformed draft b i links defect free found =>
      exact .claim (present.lt_size b (agenda.growing b i rfl).1) free
  | collision vacant collides =>
      rw [(Draft.create_of_error collides).2]
      exact Std.Refl.refl _

end Stage

namespace Graph

variable {code after : Arena n} {first : Fin n} {rest instrs : List (Fin n)} {graph : Graph}

/-- A construction upholds the arena, whether it succeeds or fails. -/
theorem upholds_construct (instrs : List (Fin n)) :
    Sustains Arena.Upholds (construct instrs) := by
  intro code
  cases ran : construct instrs code with
  | ok graph after =>
      cases instrs with
      | nil => cases ran
      | cons first rest =>
          exact (Stage.upholds_of_steps (steps_of_construct (free_of_construct ran) ran)).1
  | error fault after =>
      by_cases free : ∀ i ∈ instrs, code.owner i = none
      · cases instrs with
        | nil => cases ran; exact Std.Refl.refl _
        | cons first rest =>
            obtain ⟨last, draft, steps, fails, rfl⟩ := fails_of_construct free ran
            obtain ⟨upholds, present, agenda⟩ := Stage.upholds_of_steps steps
            exact IsTrans.trans _ _ _ upholds (Stage.upholds_of_fails present agenda fails)
      · push Not at free
        obtain ⟨i, listed, owned⟩ := free
        obtain ⟨j, -, -, refused⟩ := construct_of_owned listed owned
        rw [refused] at ran
        cases ran
        exact Std.Refl.refl _

/-- The blocks of a graph that is constructed are the newest ones of the arena. -/
theorem membership_of_construct (constructed : construct instrs code = .ok graph after) :
    Stage.Membership code.blocks.size ⟨after, graph⟩ := by
  cases instrs with
  | nil => cases constructed
  | cons first rest =>
      have steps := steps_of_construct (free_of_construct constructed) constructed
      exact (Stage.upholds_of_steps steps).2.1

end Graph

/-! ## Marking and verifying -/

namespace Arena

/-- Marking dead edges changes kinds, and not how many there are. -/
theorem upholds_tagDeadEdges (blocks : List BlockId) :
    Sustains Upholds (tagDeadEdges (n := n) blocks) := by
  have single : ∀ b, Sustains Upholds (tagDeadEdge (n := n) b) := by
    intro b arena
    cases ran : tagDeadEdge b arena with
    | ok edge after =>
        rcases tagDeadEdge_of_ok ran with ⟨-, rfl⟩ | ⟨dead, -, -, rfl⟩
        · exact Std.Refl.refl _
        · exact .setKind arena b dead.slot .dead
    | error fault after =>
        rw [(tagDeadEdge_of_error ran).1]
        exact Std.Refl.refl arena
  induction blocks with
  | nil => exact sustains_pure []
  | cons b rest ih =>
      exact (single b).bind fun edge => ih.bind fun others => sustains_pure _

theorem upholds_verify (blocks : List BlockId) :
    Sustains Upholds (verify (n := n) blocks none) := by
  apply sustains_get_bind
  intro arena
  cases found : arena.audit blocks none with
  | nil => exact Std.Refl.refl arena
  | cons problem rest => exact Std.Refl.refl arena

end Arena

/-! ## Analyses -/

namespace Script

/-- A change to a script that upholds its arena. -/
def Upholds (before after : Script n) : Prop :=
  before.arena.Upholds after.arena

instance : Std.Refl (Upholds (n := n)) := ⟨fun script => Std.Refl.refl script.arena⟩

instance : IsTrans (Script n) Upholds := ⟨fun _ _ _ => IsTrans.trans (r := Arena.Upholds) _ _ _⟩

theorem upholds_link : Sustains Upholds (link (n := n)) := by
  intro script
  have upholds := script.listing.upholds_link script.arena
  unfold link
  split
  next found => rw [found] at upholds; exact upholds
  next found => rw [found] at upholds; exact upholds

theorem upholds_onArena {α : Type} {action : Action n α}
    (sustains : Sustains Arena.Upholds action) : Sustains Upholds (onArena action) := by
  intro script
  have upholds := sustains script.arena
  unfold onArena
  split
  next found => rw [found] at upholds; exact upholds
  next found => rw [found] at upholds; exact upholds

theorem upholds_tagDeadEdges (options : Options) (graph : Graph) :
    Sustains Arena.Upholds (tagDeadEdges (n := n) options graph) := by
  unfold tagDeadEdges
  split
  next => exact Arena.upholds_tagDeadEdges graph.members
  next => exact sustains_pure []

theorem upholds_verify (options : Options) (graph : Graph) :
    Sustains Arena.Upholds (verify (n := n) options graph) := by
  unfold verify
  split
  next => exact Arena.upholds_verify graph.members
  next => exact sustains_pure ()

/-- The passes after construction. -/
theorem upholds_passes (options : Options) (graph : Graph) :
    Sustains (Upholds (n := n)) (do
      let deadEdges ← onArena (tagDeadEdges options graph)
      onArena (verify options graph)
      return { graph, deadEdges, events := (← get).report graph deadEdges : Analysis }) := by
  refine (upholds_onArena (upholds_tagDeadEdges options graph)).bind fun dead => ?_
  refine (upholds_onArena (upholds_verify options graph)).bind fun _ => ?_
  exact sustains_get_bind fun script => Std.Refl.refl script

/-- An analysis upholds the script, whether it succeeds or fails. -/
theorem upholds_analyse (options : Options) : Sustains Upholds (analyse (n := n) options) := by
  refine upholds_link.bind fun _ => sustains_get_bind fun script => ?_
  refine ((upholds_onArena (Graph.upholds_construct _)).bind fun graph => ?_) script
  exact upholds_passes options graph

/-- The blocks of the graph that an analysis returns are in use. -/
theorem members_of_analyse {options : Options} {script after : Script n} {result : Analysis}
    (ran : analyse options script = .ok result after) :
    ∀ b ∈ result.graph.members, b < after.arena.blocks.size := by
  obtain ⟨linked, code, built, -, constructed, tags⟩ := analyse_of_ok ran
  have present := Graph.membership_of_construct constructed
  have upholds := (upholds_tagDeadEdges options result.graph).of_ok tags
  intro b member
  exact Nat.lt_of_lt_of_le (present.lt_size b member) upholds.size

end Script

theorem upholds_analyse (instrs : List (Fin n)) (options : Options) :
    Sustains Arena.Upholds (analyse instrs options) := by
  intro arena
  unfold analyse
  split
  next => exact Std.Refl.refl arena
  next listing listed =>
    have upholds := Script.upholds_analyse options { arena, listing }
    split
    next found => rw [found] at upholds; exact upholds
    next found => rw [found] at upholds; exact upholds

theorem members_of_analyse {instrs : List (Fin n)} {options : Options} {arena after : Arena n}
    {result : Analysis} (ran : analyse instrs options arena = .ok result after) :
    ∀ b ∈ result.graph.members, b < after.blocks.size := by
  unfold analyse at ran
  split at ran
  next => cases ran
  next =>
    split at ran
    next found => cases ran; exact Script.members_of_analyse found
    next => cases ran

/-! ## Sessions -/

namespace Session

/-- A change to a session that upholds its arena, and makes no graph of blocks that are not
there. -/
structure Upholds (before after : Session n) : Prop where
  arena : before.arena.Upholds after.arena
  members : (∀ graph ∈ before.graphs, ∀ b ∈ graph.members, b < before.arena.blocks.size) →
    ∀ graph ∈ after.graphs, ∀ b ∈ graph.members, b < after.arena.blocks.size

instance : Std.Refl (Upholds (n := n)) := ⟨fun _ => ⟨Std.Refl.refl _, id⟩⟩

instance : IsTrans (Session n) Upholds := ⟨fun _ _ _ early late =>
  ⟨IsTrans.trans _ _ _ early.arena late.arena,
    fun members => late.members (early.members members)⟩⟩

/-- A change that leaves the graphs alone. -/
theorem Upholds.of_graphs {before after : Session n} (arena : before.arena.Upholds after.arena)
    (graphs : after.graphs = before.graphs) : before.Upholds after := by
  refine ⟨arena, ?_⟩
  intro members graph made b member
  rw [graphs] at made
  exact Nat.lt_of_lt_of_le (members graph made b member) arena.size

section Lifting

variable {α : Type}

/-- An operation on the arena makes no graph, so it is enough that it upholds the arena. -/
theorem upholds_arena {action : ScriptFlow.Action n α} {session : Session n}
    (upholds : session.arena.Upholds (left (action session.arena))) :
    session.Upholds (left (onArena action session)) := by
  unfold onArena
  split
  next found => rw [found] at upholds; exact .of_graphs upholds rfl
  next found => rw [found] at upholds; exact .of_graphs upholds rfl

theorem upholds_onArena {action : ScriptFlow.Action n α}
    (sustains : Sustains Arena.Upholds action) : Sustains Upholds (onArena action) :=
  fun session => upholds_arena (sustains session.arena)

theorem upholds_onListing {place : Nat} {action : EStateM Fault (Script n) α}
    (sustains : Sustains Script.Upholds action) : Sustains Upholds (onListing place action) := by
  intro session
  unfold onListing
  split
  next => exact Std.Refl.refl session
  next listing found =>
    have upholds := sustains { arena := session.arena, listing }
    split
    next ran => rw [ran] at upholds; exact .of_graphs upholds rfl
    next ran => rw [ran] at upholds; exact .of_graphs upholds rfl

/-- An operation that names blocks may take them to be there. -/
theorem upholds_naming {blocks : List BlockId} {action : ScriptFlow.Action n Unit}
    (sustains : ∀ arena : Arena n, (∀ b ∈ blocks, b < arena.blocks.size) →
      arena.Upholds (left (action arena))) : Sustains Upholds (naming blocks action) := by
  intro session
  unfold naming
  split
  next known => exact upholds_arena (sustains session.arena known)
  next => exact Std.Refl.refl session

theorem onArena_of_ok {action : ScriptFlow.Action n α} {value : α} {before after : Session n}
    (ran : onArena action before = .ok value after) :
    action before.arena = .ok value after.arena := by
  unfold onArena at ran
  split at ran
  next found => cases ran; exact found
  next => cases ran

theorem onListing_of_ok {place : Nat} {action : EStateM Fault (Script n) α} {value : α}
    {before after : Session n} (ran : onListing place action before = .ok value after) :
    ∃ listing script, action { arena := before.arena, listing } = .ok value script ∧
      script.arena = after.arena := by
  unfold onListing at ran
  split at ran
  next => cases ran
  next listing found =>
    split at ran
    next script done => cases ran; exact ⟨listing, script, done, rfl⟩
    next => cases ran

/-- A graph that is kept must be one of blocks of the arena. -/
theorem upholds_keepGraph {action : Action n α} (graph : α → Graph)
    (sustains : Sustains Upholds action)
    (members : ∀ {before value after}, action before = .ok value after →
      ∀ b ∈ (graph value).members, b < after.arena.blocks.size) :
    Sustains Upholds (do keepGraph (graph (← action))) := by
  intro before
  cases ran : (do keepGraph (graph (← action))) before with
  | error fault after =>
      rcases error_of_bind ran with failed | ⟨_, _, _, done⟩
      · exact sustains.of_error failed
      · cases done
  | ok _ after =>
      obtain ⟨value, middle, made, ⟨⟩⟩ := ok_of_bind ran
      have upholds := sustains.of_ok made
      refine ⟨upholds.arena, ?_⟩
      intro known other listed b member
      rcases List.mem_append.mp listed with old | new
      · exact upholds.members known other old b member
      · rw [List.mem_singleton.mp new] at member
        exact members made b member

end Lifting

/-- Adding a block to a graph upholds the session, since the block is in use. -/
theorem upholds_create (place : Nat) (address : Address) :
    Sustains Upholds (onGraph (n := n) place (Draft.create address)) := by
  intro session
  unfold onGraph
  split
  next => exact Std.Refl.refl session
  next graph found =>
    have made : graph ∈ session.graphs := List.mem_of_getElem? found
    have upholds : ∀ draft : Draft n, session.arena.Upholds draft.arena →
        ((∀ b ∈ graph.members, b < session.arena.blocks.size) →
          ∀ b ∈ draft.graph.members, b < draft.arena.blocks.size) →
        session.Upholds (onGraph.put place session draft) := by
      intro draft upholds members
      refine ⟨upholds, ?_⟩
      intro known other listed b member
      rcases List.mem_or_eq_of_mem_set listed with old | rfl
      · exact Nat.lt_of_lt_of_le (known other old b member) upholds.size
      · exact members (known graph made) b member
    split
    next b draft created =>
      obtain ⟨new, arena, members⟩ := Draft.create_of_ok created
      refine upholds draft (arena ▸ .newBlock ..) ?_
      intro known c member
      rw [arena, Arena.size_newBlock]
      rw [members] at member
      rcases List.mem_append.mp member with old | fresh
      · exact Nat.lt_succ_of_lt (known c old)
      · rw [List.mem_singleton.mp fresh, new]
        exact Nat.lt_succ_self _
    next fault draft failed =>
      obtain ⟨-, same⟩ := Draft.create_of_error failed
      rw [same]
      exact upholds _ (Std.Refl.refl _) id

/-- A graph to which no block can be added is left as it is. -/
theorem create_of_error {place : Nat} {address : Address} {fault : Fault}
    {before after : Session n}
    (failed : onGraph place (Draft.create address) before = .error fault after) :
    after = before := by
  unfold onGraph at failed
  split at failed
  next => cases failed; rfl
  next graph found =>
    split at failed
    next => cases failed
    next draft refused =>
      cases failed
      obtain ⟨bound, here⟩ := List.getElem?_eq_some_iff.mp found
      rw [(Draft.create_of_error refused).2]
      show ({ before with graphs := before.graphs.set place graph } : Session n) = before
      rw [← here, List.set_getElem_self]

/-- An instruction that a block may not have stays where it is. -/
theorem addInstruction_of_error {b : BlockId} {i : Fin n} {fault : Fault}
    {before after : Session n}
    (failed : naming [b] (Arena.addInstruction b i) before = .error fault after) :
    after = before := by
  unfold naming at failed
  split at failed
  next =>
    unfold onArena at failed
    split at failed
    next => cases failed
    next arena refused =>
      cases failed
      rw [Arena.unlessOwned_of_error refused]
  next => cases failed; rfl

theorem upholds_keepListing (instrs : List (Fin n)) : Sustains Upholds (keepListing instrs) := by
  intro session
  unfold keepListing
  split
  next => exact Std.Refl.refl session
  next => exact .of_graphs (Std.Refl.refl _) rfl

end Session

open Session in
/-- Every change upholds the session, whether it fails or not. -/
theorem Mutation.upholds_run (mutation : Mutation n) : Sustains Session.Upholds mutation.run := by
  cases mutation with
  | addBlock address => exact upholds_onArena (sustains_modify fun arena => .newBlock arena address)
  | openGraph =>
      refine sustains_modify fun session => ⟨Std.Refl.refl _, ?_⟩
      intro known graph listed b member
      rcases List.mem_append.mp listed with old | new
      · exact known graph old b member
      · rw [List.mem_singleton.mp new] at member
        cases member
  | create graph address => exact (upholds_create graph address).bind fun _ => sustains_pure _
  | addChild parent child kind =>
      refine upholds_naming fun arena known => ?_
      exact .addChild kind (known parent (by simp)) fun _ => known child (by simp)
  | addInstruction block instr =>
      refine upholds_naming fun arena known => ?_
      exact Arena.upholds_unlessOwned (.claim (known block (by simp)))
  | setOwner instr block =>
      refine upholds_naming fun arena known => ?_
      exact Arena.upholds_unlessOwned fun free => .setOwner free (by simpa using known)
  | addControl block control =>
      exact upholds_naming fun arena _ => .addControl arena block control
  | openListing instrs => exact upholds_keepListing instrs
  | link listing => exact upholds_onListing Script.upholds_link
  | construct instrs =>
      refine upholds_keepGraph id (upholds_onArena (Graph.upholds_construct instrs)) ?_
      intro before graph after ran
      exact (Graph.membership_of_construct (onArena_of_ok ran)).lt_size
  | analyse instrs options =>
      refine upholds_keepGraph Analysis.graph
        (upholds_onArena (ScriptFlow.upholds_analyse instrs options)) ?_
      intro before result after ran
      exact members_of_analyse (onArena_of_ok ran)
  | analyseListing listing options =>
      refine upholds_keepGraph Analysis.graph
        (upholds_onListing (Script.upholds_analyse options)) ?_
      intro before result after ran
      obtain ⟨known, script, analysed, same⟩ := onListing_of_ok ran
      exact same ▸ Script.members_of_analyse analysed
  | tagDeadEdges blocks =>
      exact (upholds_onArena (Arena.upholds_tagDeadEdges blocks)).bind fun _ => sustains_pure _

/-- A session upholds its arena over any number of changes. -/
theorem Session.upholds_perform (run : List (Mutation n)) (session : Session n) :
    session.Upholds (session.perform run) := by
  induction run generalizing session with
  | nil => exact Std.Refl.refl session
  | cons mutation rest ih =>
      exact IsTrans.trans _ _ _ (mutation.upholds_run session) (ih _)

/-- **Coherence.** From an arena without blocks, any changes, failed ones included, lead to
a coherent arena in which no instruction is listed twice. Owners stay, whatever comes
later. A block or an instruction that is refused leaves the session as it was, and marking
dead edges never fails. -/
theorem Session.coherent_of_perform {arena : Arena n} (free : ∀ i, arena.owner i = none)
    (bare : arena.blocks = #[]) (run : List (Mutation n)) :
    let session := ({ arena } : Session n).perform run
    session.arena.Coherent ∧
      ((List.range session.arena.blocks.size).flatMap
        fun b => (session.arena.block b).instrs).Nodup ∧
      (∀ later i b, session.arena.owner i = some b →
        (session.perform later).arena.owner i = some b) ∧
      (∀ graph address fault after,
        (Mutation.create graph address).run session = .error fault after → after = session) ∧
      (∀ b i fault after,
        (Mutation.addInstruction b i).run session = .error fault after → after = session) ∧
      ∀ blocks, ∃ after, (Mutation.tagDeadEdges blocks).run session = .ok () after := by
  intro session
  have upholds := upholds_perform run { arena }
  have sound : session.arena.Coherent :=
    upholds.arena.coherent (Arena.grounded_of_unowned free) (Arena.coherent_of_bare bare)
  refine ⟨sound, sound.nodup _ List.nodup_range, ?_, ?_, ?_, ?_⟩
  · intro later i b owned
    exact (session.upholds_perform later).arena.owner i b owned
  · intro graph address fault after failed
    rcases error_of_bind failed with refused | ⟨_, _, _, done⟩
    · exact create_of_error refused
    · cases done
  · exact fun b i fault after failed => addInstruction_of_error failed
  · intro blocks
    obtain ⟨dead, tagged, ran, -⟩ := Arena.tagDeadEdges_ok fun b (_ : b ∈ blocks) => sound.kinds b
    refine ⟨{ session with arena := tagged }, ?_⟩
    simp only [Mutation.run, onArena, bind, EStateM.bind, ran]
    rfl

/-- A block that leads into a jump without a destination, a test that goes nowhere else, and
an instruction that a stray block may take. -/
def Arena.contested : Arena 4 where
  instrs := #v[
    { address := 0, opcode := .nop, follower := some 1 },
    { address := 2, opcode := .jmp },
    { address := 8, opcode := .jz, branches := [2, 2] },
    { address := 14, opcode := .retn }]

/-- A caller makes blocks and edges, takes an instruction, and constructs a graph beside them.
Some of it is refused. -/
theorem Session.coherent_of_perform_contested :
    let run := [.addBlock 20, .addChild 0 0 .unconditional, .addInstruction 0 3,
      .construct [0], .construct [2], .construct [3], .openGraph, .create 1 8, .create 1 8,
      .addChild 1 2 .functionCall, .tagDeadEdges [0, 2, 9]]
    let session := ({ arena := Arena.contested } : Session 4).perform run
    (∀ i, Arena.contested.owner i = none) ∧ Arena.contested.blocks = #[] ∧
      session.arena.blocks.size = 4 ∧ session.arena.owner 1 = some 1 ∧
      (session.arena.block 2).children = [2, 2] ∧
      (session.arena.block 2).parents = [2, 2, 1] ∧ session.arena.Coherent := by
  intro run session
  have free : ∀ i, Arena.contested.owner i = none := by decide
  have reached : session.arena.blocks.size = 4 ∧ session.arena.owner 1 = some 1 ∧
      (session.arena.block 2).children = [2, 2] ∧
      (session.arena.block 2).parents = [2, 2, 1] := by decide +kernel
  obtain ⟨size, owner, children, parents⟩ := reached
  exact ⟨free, rfl, size, owner, children, parents, (coherent_of_perform free rfl run).1⟩

end ScriptFlow
