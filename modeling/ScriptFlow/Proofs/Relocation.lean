import Mathlib.Data.List.Find
import ScriptFlow.Proofs.Descent
import ScriptFlow.Proofs.Relabelling
import ScriptFlow.Proofs.Retagging

/-!
# Analyses of relabelled code

Construction, marking and the analysis as a whole commute with a strictly increasing map of
the addresses (`analyse_relabel`). An identifier that is not in use reads as a block at
address zero, whatever the map, so construction carries along that the blocks of its graph
are in use (`Draft.Stored`).
-/

namespace ScriptFlow

variable {n : Nat} {f : Address → Address}

/-! ## Construction -/

/-- The blocks of the graph are in use. -/
def Draft.Stored (draft : Draft n) : Prop :=
  ∀ b ∈ draft.graph.members, b < draft.arena.blocks.size

namespace Draft

variable {draft after : Draft n}

theorem Stored.addChild (stored : draft.Stored) (parent child : BlockId) (kind : EdgeKind) :
    (draft.addChild parent child kind).Stored := by
  intro b member
  rw [arena_addChild, Arena.size_addChild]
  exact stored b member

theorem Stored.claim (stored : draft.Stored) (b : BlockId) (i : Fin n) :
    (draft.claim b i).Stored := by
  intro c member
  rw [arena_claim, Arena.size_claim]
  exact stored c member

/-- A block that is created is in use from then on. -/
theorem Stored.create (stored : draft.Stored) {address : Address} {b : BlockId}
    (created : create address draft = .ok b after) : after.Stored := by
  obtain ⟨rfl, arena, members⟩ := create_of_ok created
  intro c member
  rw [arena, Arena.size_newBlock]
  rw [members, List.mem_append, List.mem_singleton] at member
  rcases member with old | rfl
  · exact Nat.lt_succ_of_lt (stored c old)
  · exact Nat.lt_succ_self _

theorem addChild_relabel (f : Address → Address) (draft : Draft n) (parent child : BlockId)
    (kind : EdgeKind) :
    (draft.relabel f).addChild parent child kind =
      (draft.addChild parent child kind).relabel f := by
  rw [addChild, relabel, Arena.addChild_relabel]
  rfl

theorem claim_relabel (f : Address → Address) (draft : Draft n) (b : BlockId) (i : Fin n) :
    (draft.relabel f).claim b i = (draft.claim b i).relabel f := by
  rw [claim, relabel, Arena.claim_relabel]
  rfl

/-- An address has a block just if its image has one, so the same requests are refused. -/
theorem create_relabel (injective : Function.Injective f) (stored : draft.Stored)
    (address : Address) :
    create (f address) (draft.relabel f) =
      relabelResult f (relabel f) id (create address draft) := by
  have found : draft.graph.get? (draft.arena.relabel f) (f address) =
      draft.graph.get? draft.arena address := by
    apply List.find?_congr
    intro b member
    rw [Arena.address_relabel f (stored b member)]
    simp only [injective.eq_iff]
  unfold create relabel
  dsimp only
  rw [found]
  cases draft.graph.get? draft.arena address with
  | some b => rfl
  | none =>
      dsimp only
      rw [Arena.newBlock_relabel, Arena.size_relabel]
      rfl

end Draft

/-- A defect found in the exits of an instruction names no address. -/
theorem Instruction.relabel_of_exits {instr : Instruction n} {defect : Defect}
    (failed : instr.exits = .error defect) : defect.relabel f = defect := by
  unfold Instruction.exits exits.returning at failed
  split at failed <;> (try split at failed) <;> cases failed <;> rfl

namespace Task

open Descent (run_grow_of_free drain_of_ok drain_of_error)

/-- One step of a growing block over the relabelled arena. -/
theorem grow_relabel_of_free (f : Address → Address) (block : BlockId) {start : Fin n}
    {draft : Draft n} (free : draft.arena.owner start = none) :
    (grow block start).run (draft.relabel f) =
      if (draft.arena.instr start).opcode.endsBlock then
        match (draft.arena.instr start).exits with
        | .error defect =>
            .error (((draft.arena.instr start).relabel f).fault defect)
              ((draft.claim block start).relabel f)
        | .ok exits => .ok (links block exits) ((draft.claim block start).relabel f)
      else
        match (draft.arena.instr start).follower with
        | none => .ok [] ((draft.claim block start).relabel f)
        | some next =>
            if (draft.arena.instr next).isLeader then
              (link block next .unconditional).run ((draft.claim block start).relabel f)
            else (grow block next).run ((draft.claim block start).relabel f) := by
  have free' : (draft.relabel f).arena.owner start = none := by
    rwa [Draft.relabel, Arena.owner_relabel]
  have instr : ∀ i, (draft.relabel f).arena.instr i = (draft.arena.instr i).relabel f := fun i =>
    Arena.instr_relabel f draft.arena i
  have step := run_grow_of_free block free'
  simp only [instr, Draft.claim_relabel] at step
  exact step

section Relabel

variable (injective : Function.Injective f) {draft after : Draft n}

/-- Recording an edge keeps the blocks of the graph in use, a new one included. -/
theorem stored_of_connect {parent : BlockId} {destination : Fin n} {kind : EdgeKind}
    {new : List (Task n)} (stored : draft.Stored)
    (connected : connect parent destination kind draft = .ok new after) : after.Stored := by
  unfold connect at connected
  split at connected
  next => cases connected; exact stored.addChild _ _ _
  next =>
    split at connected
    next => cases connected
    next created => cases connected; exact (stored.create created).addChild _ _ _

/-- Any task keeps the blocks of the graph in use. -/
theorem stored_of_run {task : Task n} {new : List (Task n)} (stored : draft.Stored)
    (ran : task.run draft = .ok new after) : after.Stored := by
  cases task with
  | link parent destination kind => exact stored_of_connect stored ran
  | grow block start =>
      rw [run] at ran
      fun_induction fill block start draft with
      | case1 start draft owner owned => cases ran; exact stored.addChild _ _ _
      | case2 => cases ran
      | case3 => injection ran with _ same; subst same; exact stored.claim _ _
      | case4 => injection ran with _ same; subst same; exact stored.claim _ _
      | case5 => exact stored_of_connect (stored.claim _ _) ran
      | case6 start draft free instr claimed goesOn next found plain ih =>
          exact ih (stored.claim _ _) ran

include injective

/-- Recording an edge commutes with relabelling. The new block, if there is one, stands at the
image. -/
theorem connect_relabel (stored : draft.Stored) (parent : BlockId) (destination : Fin n)
    (kind : EdgeKind) :
    connect parent destination kind (draft.relabel f) =
      relabelResult f (Draft.relabel f) id (connect parent destination kind draft) := by
  have owner : (draft.relabel f).arena.owner destination = draft.arena.owner destination :=
    Arena.owner_relabel ..
  have address : ((draft.relabel f).arena.instr destination).address =
      f (draft.arena.instr destination).address :=
    congrArg Instruction.address (Arena.instr_relabel ..)
  unfold connect
  rw [owner, address, Draft.create_relabel injective stored]
  cases draft.arena.owner destination with
  | some child =>
      dsimp only
      rw [Draft.addChild_relabel]
      rfl
  | none =>
      dsimp only
      cases Draft.create (draft.arena.instr destination).address draft with
      | error fault made => rfl
      | ok child made =>
          simp only [relabelResult, id, Draft.addChild_relabel]

/-- Performing a task commutes with relabelling. -/
theorem run_relabel (stored : draft.Stored) (task : Task n) :
    task.run (draft.relabel f) = relabelResult f (Draft.relabel f) id (task.run draft) := by
  cases task with
  | link parent destination kind => exact connect_relabel injective stored ..
  | grow block start =>
      -- The induction is on the growth of the block; claiming keeps `Stored`.
      rw [run]
      fun_induction fill block start draft with
      | case1 start draft owner owned =>
          have owned' : (draft.relabel f).arena.owner start = some owner := by
            rwa [Draft.relabel, Arena.owner_relabel]
          rw [fill_of_owner owned', Draft.addChild_relabel]
          rfl
      | case2 start draft free instr claimed ends defect malformed =>
          have step := grow_relabel_of_free f block free
          rw [if_pos ends, malformed] at step
          refine step.trans ?_
          simp only [relabelResult, Fault.relabel, Instruction.fault, Instruction.relabel,
            Instruction.relabel_of_exits malformed]
          rfl
      | case3 start draft free instr claimed ends exits found =>
          have step := grow_relabel_of_free f block free
          rw [if_pos ends, found] at step
          exact step
      | case4 start draft free instr claimed goesOn last =>
          have step := grow_relabel_of_free f block free
          rw [if_neg goesOn, last] at step
          exact step
      | case5 start draft free instr claimed goesOn next found leader =>
          have step := grow_relabel_of_free f block free
          rw [if_neg goesOn, found] at step
          simp only [if_pos leader] at step
          exact step.trans (connect_relabel injective (stored.claim _ _) ..)
      | case6 start draft free instr claimed goesOn next found plain ih =>
          have step := grow_relabel_of_free f block free
          rw [if_neg goesOn, found] at step
          simp only [if_neg plain] at step
          exact step.trans (ih (stored.claim _ _))

/-- Performing tasks until none is left, or one fails, commutes with relabelling. -/
theorem drain_relabel (tasks : List (Task n)) (stored : draft.Stored) :
    drain tasks (draft.relabel f) = relabelResult f (Draft.relabel f) id (drain tasks draft) := by
  fun_induction drain tasks draft with
  | case1 draft => rw [drain]; rfl
  | case2 draft task rest fault after failed =>
      have ran := run_relabel injective stored task
      rw [failed] at ran
      rw [drain_of_error ran]
      rfl
  | case3 draft task rest new after found ih =>
      have ran := run_relabel injective stored task
      rw [found] at ran
      rw [drain_of_ok ran]
      exact ih (stored_of_run stored found)

end Relabel

end Task

/-- Construction commutes with every map that takes no two addresses to one, whether it keeps
their order or not. -/
theorem Graph.construct_relabel (injective : Function.Injective f) (instrs : List (Fin n))
    (arena : Arena n) :
    construct instrs (arena.relabel f) =
      relabelResult f (Arena.relabel f) id (construct instrs arena) := by
  cases instrs with
  | nil => rfl
  | cons first rest =>
      have empty : Draft.Stored { arena } := nofun
      have creates : Draft.create ((arena.instr first).relabel f).address
            { arena := arena.relabel f } =
          relabelResult f (Draft.relabel f) id
            (Draft.create (arena.instr first).address { arena }) :=
        Draft.create_relabel injective empty (arena.instr first).address
      unfold construct
      simp only [Arena.owner_relabel, Arena.instr_relabel]
      cases (first :: rest).find? fun i => (arena.owner i).isSome with
      | some i => rfl
      | none =>
          simp only [creates]
          cases created : Draft.create (arena.instr first).address { arena } with
          | error fault draft => rfl
          | ok entry draft =>
              have drains := Task.drain_relabel injective [.grow entry first]
                (empty.create created)
              simp only [relabelResult, id, drains]
              cases Task.drain [.grow entry first] draft with
              | error fault last => rfl
              | ok _ last => rfl

/-! ## Dead edges -/

namespace Arena

theorem isTopStackJumper_relabel (f : Address → Address) (arena : Arena n) (b : BlockId) :
    (arena.relabel f).isTopStackJumper b = arena.isTopStackJumper b := by
  simp only [isTopStackJumper, instrs_relabel, children_relabel, instr_relabel]
  rfl

/-- Which edge of a block is dead depends on operations and edges, not on addresses. -/
theorem deadEdge?_relabel (f : Address → Address) (arena : Arena n) (b : BlockId) :
    (arena.relabel f).deadEdge? b = arena.deadEdge? b := by
  have entry : ∀ p, (arena.relabel f).entrySlot? b p = arena.entrySlot? b p := by
    intro p
    simp only [entrySlot?, childIndex?, isTopStackJumper_relabel, children_relabel]
  have shared : (arena.relabel f).sharedSlot? b = arena.sharedSlot? b := by
    simp only [sharedSlot?, parents_relabel, entry]
  simp only [deadEdge?, isTopStackJumper_relabel, instrs_relabel, children_relabel, shared]

theorem tagDeadEdge_relabel (f : Address → Address) (b : BlockId) (arena : Arena n) :
    tagDeadEdge b (arena.relabel f) =
      relabelResult f (Arena.relabel f) id (tagDeadEdge b arena) := by
  apply relabelResult_get_bind
  rw [deadEdge?_relabel]
  cases arena.deadEdge? b with
  | none => rfl
  | some edge =>
      dsimp only
      rw [kinds_relabel]
      split
      next =>
        refine congrArg (EStateM.Result.ok (some edge)) (modifyBlock_relabel ?_)
        exact fun _ => rfl
      next => rfl

/-- Marking the dead edges of blocks commutes with relabelling. -/
theorem tagDeadEdges_relabel (f : Address → Address) (blocks : List BlockId) (arena : Arena n) :
    tagDeadEdges blocks (arena.relabel f) =
      relabelResult f (Arena.relabel f) id (tagDeadEdges blocks arena) := by
  induction blocks generalizing arena with
  | nil => rfl
  | cons b rest ih =>
      apply relabelResult_bind (tagDeadEdge_relabel f b arena)
      intro edge middle _
      apply relabelResult_bind (ih middle)
      intro others after _
      rfl

end Arena

namespace Script

variable {graph : Graph} {dead : List DeadEdge} {options : Options}

theorem tagDeadEdges_relabel (f : Address → Address) (options : Options) (graph : Graph)
    (arena : Arena n) :
    tagDeadEdges options graph (arena.relabel f) =
      relabelResult f (Arena.relabel f) id (tagDeadEdges options graph arena) := by
  unfold tagDeadEdges
  split
  next => exact Arena.tagDeadEdges_relabel f _ arena
  next => rfl

/-- Edges that are reported as dead join blocks of the graph. -/
theorem mem_of_tagDeadEdges {code built tagged : Arena n} {first : Fin n}
    (made : code.Built first graph built)
    (tags : tagDeadEdges options graph built = .ok dead tagged) :
    ∀ edge ∈ dead, edge.source ∈ graph.members ∧ edge.target ∈ graph.members := by
  unfold tagDeadEdges at tags
  split at tags
  next =>
    rw [Arena.eq_filterMap_of_tagDeadEdges tags]
    intro edge listed
    obtain ⟨b, member, found⟩ := List.mem_filterMap.mp listed
    obtain ⟨-, rfl, -, -, -, there⟩ := Arena.deadEdge?_eq_some_iff.mp found
    exact ⟨member, made.linkage.children _ member _ (List.mem_of_getElem? there)⟩
  next => cases tags; exact nofun

/-- The report names the images of the addresses. -/
theorem report_relabel (f : Address → Address) (graph : Graph) {arena : Arena n}
    (listing : Listing n) (stored : ∀ edge ∈ dead,
      edge.source < arena.blocks.size ∧ edge.target < arena.blocks.size) :
    report { arena := arena.relabel f, listing } graph dead =
      (report { arena, listing } graph dead).map (Event.relabel f) := by
  have edges : dead.map (fun edge => Event.deadEdge ((arena.relabel f).address edge.source)
        ((arena.relabel f).address edge.target)) =
      (dead.map fun edge =>
        Event.deadEdge (arena.address edge.source) (arena.address edge.target)).map
        (Event.relabel f) := by
    rw [List.map_map]
    apply List.map_congr_left
    intro edge listed
    obtain ⟨source, target⟩ := stored edge listed
    rw [Arena.address_relabel f source, Arena.address_relabel f target]
    rfl
  simp only [report, edges, List.map_append, List.map_map, Graph.edgeCounts,
    Arena.kinds_relabel, Arena.instr_relabel]
  rfl

end Script

/-! ## Queries -/

/-- Queries compare addresses, so a map that keeps their order changes no answer. -/
theorem Graph.answersAlike_relabel (increasing : Address.Increasing f) {arena : Arena n}
    {graph : Graph}
    (closed : arena.Closed graph.members)
    (stored : ∀ b ∈ graph.members, b < arena.blocks.size) :
    graph.AnswersAlike arena (arena.relabel f) := by
  refine answersAlike_of_echoes ⟨?_, ?_, ?_, ?_⟩ closed
  · intro b left c right
    rw [Arena.address_relabel f (stored b left), Arena.address_relabel f (stored c right),
      increasing.lt_iff]
  · exact fun b _ => Arena.children_relabel f arena b
  · exact fun b _ => Arena.parents_relabel f arena b
  · exact fun b _ => by rw [Arena.kinds_relabel]

/-! ## Analyses -/

section Analyses

variable (increasing : Address.Increasing f) {instrs : List (Fin n)} {arena : Arena n}
  (fresh : ∀ i ∈ instrs, (arena.instr i).IsFresh)

include increasing fresh

/-- What comes of linked code, on its own and relabelled. -/
theorem Script.outcome_relabel {listing linked : Listing n} {code : Arena n}
    (listed : Listing.ofList arena instrs = .ok listing)
    (relisted : Listing.ofList (arena.relabel f) instrs = .ok listing)
    (links : listing.link arena = .ok linked code)
    (relinks : listing.link (arena.relabel f) = .ok linked (code.relabel f))
    (options : Options) :
    outcome (analyse options { arena := arena.relabel f, listing }) =
        relabelResult f (Arena.relabel f) (Analysis.relabel f)
          (outcome (analyse options { arena, listing })) ∧
      ∀ result after, outcome (analyse options { arena, listing }) = .ok result after →
        result.graph.AnswersAlike after (after.relabel f) := by
  have constructs := Graph.construct_relabel increasing.injective linked.items code
  cases constructed : Graph.construct linked.items code with
  | error fault built =>
      rw [constructed] at constructs
      rw [analyse_of_refused links constructed, analyse_of_refused relinks constructs]
      exact ⟨rfl, nofun⟩
  | ok graph built =>
      rw [constructed] at constructs
      have refresh : ∀ i ∈ instrs, ((arena.relabel f).instr i).IsFresh := by
        intro i member
        rw [Arena.instr_relabel]
        exact fresh i member
      -- The audit need not commute: both graphs are built, so neither has a problem.
      obtain ⟨first, made⟩ := Graph.built_of_listed fresh listed links constructed
      obtain ⟨_, remade⟩ := Graph.built_of_listed refresh relisted relinks constructs
      obtain ⟨dead, tagged, tags, verifies⟩ := passes_ok options made.consistent
      obtain ⟨_, _, retags, reverifies⟩ := passes_ok options remade.consistent
      have marks := tagDeadEdges_relabel f options graph built
      rw [tags] at marks
      cases retags.symm.trans marks
      have marked := retags_of_tagDeadEdges tags
      have stored : ∀ b ∈ graph.members, b < tagged.blocks.size := fun b member =>
        (made.consistent.retags marked).lt_size member
      rw [analyse_of_tagged links constructed tags verifies,
        analyse_of_tagged relinks constructs retags reverifies]
      refine ⟨?_, ?_⟩
      · have reports := report_relabel f graph linked fun edge listed =>
          (mem_of_tagDeadEdges made tags edge listed).imp (stored _) (stored _)
        simp only [outcome, relabelResult, Analysis.relabel, id, reports]
      · intro result after ran
        cases ran
        exact Graph.answersAlike_relabel increasing (made.closed.retags marked) stored

/-- **Relabelling.** The analysis of fresh instructions commutes with a strictly increasing map
of their addresses: on the images it fails with the image of the fault, or returns the same
graph over the images of the blocks, and the queries on it are answered alike. -/
theorem analyse_relabel (options : Options) :
    analyse instrs options (arena.relabel f) =
        relabelResult f (Arena.relabel f) (Analysis.relabel f) (analyse instrs options arena) ∧
      ∀ result after, analyse instrs options arena = .ok result after →
        result.graph.AnswersAlike after (after.relabel f) := by
  have lists := Listing.ofList_relabel increasing arena instrs
  cases listed : Listing.ofList arena instrs with
  | error fault =>
      rw [listed] at lists
      rw [analyse_of_unlisted listed, analyse_of_unlisted lists]
      exact ⟨rfl, nofun⟩
  | ok listing =>
      rw [listed] at lists
      rw [analyse_of_listed listed, analyse_of_listed lists]
      have linking := Listing.link_relabel increasing.injective listing arena
      cases links : listing.link arena with
      | error fault code =>
          rw [links] at linking
          rw [Script.analyse_of_unlinked links, Script.analyse_of_unlinked linking]
          exact ⟨rfl, nofun⟩
      | ok linked code =>
          rw [links] at linking
          exact Script.outcome_relabel increasing fresh listed lists links linking options

end Analyses

/-- Moves what stands below address ten far down, and stretches the rest. -/
def Address.spread (address : Int) : Int :=
  if address < 10 then address - 100000000000000000000 else 7 * address

/-- Both parts of the map keep the order, and the lower one ends below the other. -/
theorem Address.increasing_spread : Increasing spread := by
  intro (low : Int) (high : Int) (below : low < high)
  show spread low < spread high
  unfold spread
  split <;> split <;> omega

theorem analyse_relabel_shortCircuit :
    ∃ result after, Address.Increasing Address.spread ∧
      (∀ i ∈ List.finRange 7, (Arena.shortCircuit.instr i).IsFresh) ∧
      analyse (List.finRange 7) {} Arena.shortCircuit = .ok result after ∧
      result.deadEdges.length = 1 ∧
      analyse (List.finRange 7) {} (Arena.shortCircuit.relabel Address.spread) =
        .ok (result.relabel Address.spread) (after.relabel Address.spread) ∧
      result.graph.AnswersAlike after (after.relabel Address.spread) := by
  have fresh : ∀ i ∈ List.finRange 7, (Arena.shortCircuit.instr i).IsFresh := by decide
  have runs : (match analyse (List.finRange 7) {} Arena.shortCircuit with
      | .error .. => 0
      | .ok result _ => result.deadEdges.length) = 1 := by decide +kernel
  obtain ⟨same, answers⟩ := analyse_relabel Address.increasing_spread fresh {}
  cases ran : analyse (List.finRange 7) {} Arena.shortCircuit with
  | error fault after => rw [ran] at runs; cases runs
  | ok result after =>
      rw [ran] at runs same
      exact ⟨result, after, Address.increasing_spread, fresh, rfl, runs, same,
        answers result after ran⟩

end ScriptFlow
