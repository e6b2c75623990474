import ScriptFlow.Analysis
import ScriptFlow.Proofs.Audit
import ScriptFlow.Proofs.Linking
import ScriptFlow.Proofs.Shape

/-!
# Constructed graphs are consistent

The blocks of a graph that has been constructed pass their audit, and still do when dead
edges have been marked: marking changes the kinds of edges, not their number
(`Arena.Retags`). No other part of an analysis can report an inconsistency, so none ever
does (`Graph.audit_of_construct`).
-/

namespace ScriptFlow

variable {n : Nat}

/-! ## The blocks of a finished graph -/

namespace Arena.Built

variable {code after : Arena n} {first : Fin n} {graph : Graph}

/-- A graph has no block twice, since its blocks stand at different addresses. -/
theorem nodup_members (built : code.Built first graph after) : graph.members.Nodup := by
  apply built.membership.distinct.imp
  intro b c apart same
  exact apart (congrArg after.address same)

/-- No instruction is listed by two blocks. -/
theorem eq_of_listed (built : code.Built first graph after) {b c : BlockId} {i : Fin n}
    (left : b ∈ graph.members) (right : c ∈ graph.members)
    (here : i ∈ (after.block b).instrs) (there : i ∈ (after.block c).instrs) : b = c := by
  have owner := (built.ownership.listed b left i here).1
  rw [(built.ownership.listed c right i there).1] at owner
  exact (Option.some.inj owner).symm

/-- The parents of a block are the blocks that have it for a child. -/
theorem mem_parents_iff (built : code.Built first graph after) {b p : BlockId}
    (member : b ∈ graph.members) :
    p ∈ (after.block b).parents ↔ p ∈ graph.members ∧ b ∈ (after.block p).children := by
  constructor
  · intro parent
    have known := built.linkage.parents b member p parent
    have paired := built.linkage.paired p known b member
    have recorded : 0 < (after.block b).parents.count p := List.count_pos_iff.mpr parent
    exact ⟨known, List.count_pos_iff.mp (paired ▸ recorded)⟩
  · rintro ⟨known, child⟩
    have recorded : 0 < (after.block p).children.count b := List.count_pos_iff.mpr child
    rw [built.linkage.paired p known b member] at recorded
    exact List.count_pos_iff.mp recorded

/-- What a construction leaves is consistent. -/
theorem consistent (built : code.Built first graph after) :
    after.Consistent graph.members := by
  refine ⟨?_, ?_, ?_, ?_, ?_, ?_, ?_⟩
  · exact List.pairwise_map.mpr built.membership.distinct
  · intro b member
    obtain ⟨i, head, address, -⟩ := built.starts b member
    exact ⟨i, head, by rw [built.same.address, address]⟩
  · intro b member
    obtain ⟨last, edges, -, -, kinds, children⟩ := built.edges b member
    rw [kinds, List.length_map, children.length_eq]
  · intro b member c child
    have known := built.linkage.children b member c child
    exact ⟨known, (built.linkage.paired b member c known).symm⟩
  · exact fun b member p parent => ((built.mem_parents_iff member).mp parent).2
  · exact fun b member i listed => (built.ownership.listed b member i listed).1
  · rw [List.nodup_flatMap]
    refine ⟨built.ownership.once, built.nodup_members.imp_of_mem ?_⟩
    intro b c left right apart i here there
    exact apart (built.eq_of_listed left right here there)

end Arena.Built

/-! ## Marking dead edges -/

namespace Arena

/-- Kinds of edges have changed, but not their number. -/
structure Retags (before after : Arena n) : Prop where
  instr : ∀ i, after.instr i = before.instr i
  block : ∀ b, ∃ kinds, after.block b = { before.block b with kinds } ∧
    kinds.length = (before.block b).kinds.length

theorem Retags.refl (arena : Arena n) : arena.Retags arena :=
  ⟨fun _ => rfl, fun _ => ⟨_, rfl, rfl⟩⟩

theorem Retags.symm {before after : Arena n} (retags : before.Retags after) :
    after.Retags before := by
  refine ⟨fun i => (retags.instr i).symm, fun b => ?_⟩
  obtain ⟨kinds, same, length⟩ := retags.block b
  refine ⟨(before.block b).kinds, by rw [same], ?_⟩
  rw [same, length]

theorem Retags.trans {before middle after : Arena n} (early : before.Retags middle)
    (late : middle.Retags after) : before.Retags after := by
  refine ⟨fun i => (late.instr i).trans (early.instr i), ?_⟩
  intro b
  obtain ⟨kinds, first, length⟩ := early.block b
  obtain ⟨kinds', second, length'⟩ := late.block b
  refine ⟨kinds', by rw [second, first], ?_⟩
  rw [length', first, length]

/-- Setting the kind of one edge changes nothing else. -/
theorem Retags.setKind (arena : Arena n) (b : BlockId) (slot : Nat) (kind : EdgeKind) :
    arena.Retags (arena.setKind b slot kind) := by
  refine ⟨fun _ => rfl, ?_⟩
  intro c
  rw [Arena.setKind, block_modifyBlock]
  split
  next same =>
    rw [same.1]
    exact ⟨_, rfl, List.length_set ..⟩
  next => exact ⟨_, rfl, rfl⟩

section Retags

variable {before after : Arena n} (retags : before.Retags after) (b : BlockId)

include retags

theorem Retags.instrs : (after.block b).instrs = (before.block b).instrs := by
  obtain ⟨kinds, same, -⟩ := retags.block b
  rw [same]

theorem Retags.children : (after.block b).children = (before.block b).children := by
  obtain ⟨kinds, same, -⟩ := retags.block b
  rw [same]

theorem Retags.parents : (after.block b).parents = (before.block b).parents := by
  obtain ⟨kinds, same, -⟩ := retags.block b
  rw [same]

theorem Retags.address : after.address b = before.address b := by
  obtain ⟨kinds, same, -⟩ := retags.block b
  rw [Arena.address, same, Arena.address]

theorem Retags.length_kinds :
    (after.block b).kinds.length = (before.block b).kinds.length := by
  obtain ⟨kinds, same, length⟩ := retags.block b
  rw [same, ← length]

end Retags

/-- Blocks without a problem are in use. -/
theorem Consistent.lt_size {arena : Arena n} {blocks : List BlockId}
    (sound : arena.Consistent blocks) {b : BlockId} (member : b ∈ blocks) :
    b < arena.blocks.size := by
  by_contra beyond
  obtain ⟨i, head, -⟩ := sound.starts b member
  rw [block_of_size_le (Nat.le_of_not_lt beyond)] at head
  cases head

/-- Consistency asks for the number of kinds only, so other kinds do not harm it. -/
theorem Consistent.retags {before after : Arena n} {blocks : List BlockId}
    (sound : before.Consistent blocks) (retags : before.Retags after) :
    after.Consistent blocks := by
  have address : after.address = before.address := funext retags.address
  have owner : ∀ i, after.owner i = before.owner i := fun i => by
    rw [Arena.owner, retags.instr, Arena.owner]
  constructor
  · simpa only [address] using sound.distinct
  · simpa only [retags.instrs, retags.instr, address] using sound.starts
  · simpa only [retags.children, retags.length_kinds] using sound.kinds
  · simpa only [retags.children, retags.parents] using sound.children
  · simpa only [retags.children, retags.parents] using sound.parents
  · simpa only [retags.instrs, owner] using sound.owned
  · simpa only [retags.instrs] using sound.once

/-- A dead edge is one of the edges of its block. -/
theorem slot_lt_of_deadEdge? {arena : Arena n} {b : BlockId} {edge : DeadEdge}
    (found : arena.deadEdge? b = some edge) :
    edge.slot < (arena.block b).children.length := by
  unfold deadEdge? at found
  split at found
  next =>
    obtain ⟨slot, -, found⟩ := Option.bind_eq_some_iff.mp found
    obtain ⟨target, there, same⟩ := Option.bind_eq_some_iff.mp found
    cases same
    exact (List.getElem?_eq_some_iff.mp there).1
  next => cases found

/-- Marking the dead edge of a block changes its kind, if there is one. -/
theorem tagDeadEdge_of_ok {arena after : Arena n} {b : BlockId} {edge : Option DeadEdge}
    (ran : tagDeadEdge b arena = .ok edge after) :
    arena.deadEdge? b = none ∧ after = arena ∨
      ∃ dead, arena.deadEdge? b = some dead ∧ dead.slot < (arena.block b).kinds.length ∧
        after = arena.setKind b dead.slot .dead := by
  obtain ⟨_, _, ⟨⟩, ran⟩ := ok_of_bind ran
  cases found : arena.deadEdge? b with
  | none =>
      rw [found] at ran
      cases ran
      exact .inl ⟨rfl, rfl⟩
  | some dead =>
      rw [found] at ran
      dsimp only at ran
      split at ran
      next bound =>
        obtain ⟨_, _, ⟨⟩, ⟨⟩⟩ := ok_of_bind ran
        exact .inr ⟨dead, rfl, bound, rfl⟩
      next => cases ran

/-- Marking a dead edge changes a kind, if anything. -/
theorem retags_of_tagDeadEdge {arena after : Arena n} {b : BlockId} {edge : Option DeadEdge}
    (ran : tagDeadEdge b arena = .ok edge after) : arena.Retags after := by
  rcases tagDeadEdge_of_ok ran with ⟨-, rfl⟩ | ⟨dead, -, -, rfl⟩
  · exact .refl _
  · exact .setKind ..

/-- Marking a dead edge fails, and does nothing, only where edges and kinds differ in
number. -/
theorem tagDeadEdge_of_error {arena after : Arena n} {b : BlockId} {fault : Fault}
    (failed : tagDeadEdge b arena = .error fault after) :
    after = arena ∧ (arena.block b).children.length ≠ (arena.block b).kinds.length := by
  rcases error_of_bind failed with read | ⟨_, _, ⟨⟩, ran⟩
  · cases read
  · cases found : arena.deadEdge? b with
    | none => rw [found] at ran; cases ran
    | some dead =>
        rw [found] at ran
        dsimp only at ran
        split at ran
        next =>
          rcases error_of_bind ran with changed | ⟨_, _, ⟨⟩, done⟩
          · cases changed
          · cases done
        next beyond =>
          cases ran
          exact ⟨rfl, fun kinds => beyond (kinds ▸ slot_lt_of_deadEdge? found)⟩

/-- Marking a dead edge succeeds where there are as many kinds as children. -/
theorem tagDeadEdge_ok {arena : Arena n} {b : BlockId}
    (kinds : (arena.block b).children.length = (arena.block b).kinds.length) :
    ∃ edge after, tagDeadEdge b arena = .ok edge after ∧ arena.Retags after := by
  cases ran : tagDeadEdge b arena with
  | ok edge after => exact ⟨edge, after, rfl, retags_of_tagDeadEdge ran⟩
  | error fault after => exact ((tagDeadEdge_of_error ran).2 kinds).elim

/-- Marking dead edges does not fail where each edge has a kind. -/
theorem tagDeadEdges_ok {arena : Arena n} {blocks : List BlockId}
    (kinds : ∀ b ∈ blocks,
      (arena.block b).children.length = (arena.block b).kinds.length) :
    ∃ dead after, tagDeadEdges blocks arena = .ok dead after ∧ arena.Retags after := by
  induction blocks generalizing arena with
  | nil => exact ⟨[], arena, rfl, .refl arena⟩
  | cons b rest ih =>
      obtain ⟨edge, middle, tagged, early⟩ := tagDeadEdge_ok (kinds b List.mem_cons_self)
      have later : ∀ c ∈ rest,
          (middle.block c).children.length = (middle.block c).kinds.length := by
        intro c member
        rw [early.children, early.length_kinds]
        exact kinds c (List.mem_cons_of_mem _ member)
      obtain ⟨others, after, ran, late⟩ := ih later
      refine ⟨edge.toList ++ others, after, ?_, early.trans late⟩
      simp only [tagDeadEdges, bind, EStateM.bind, tagged, ran]
      rfl

/-- Consistent blocks pass their audit. -/
theorem verify_ok {arena : Arena n} {blocks : List BlockId}
    (sound : arena.Consistent blocks) : verify blocks none arena = .ok () arena := by
  have clean := audit_eq_nil_iff.mpr sound
  cases ran : verify blocks none arena with
  | ok _ after =>
      obtain ⟨_, _, ⟨⟩, ran⟩ := ok_of_bind ran
      rw [clean] at ran
      cases ran
      rfl
  | error fault after =>
      rcases error_of_bind ran with read | ⟨_, _, ⟨⟩, ran⟩
      · cases read
      · rw [clean] at ran
        cases ran

end Arena

/-! ## Construction -/

/-- The fault reports inconsistent blocks. -/
def Fault.IsInconsistent (fault : Fault) : Prop :=
  ∃ problems, fault = .inconsistent problems

theorem Instruction.fault_not_inconsistent (instr : Instruction n) (defect : Defect) :
    ¬ (instr.fault defect).IsInconsistent := by
  intro inconsistent
  obtain ⟨problems, same⟩ := inconsistent
  cases same

namespace Graph

variable {arena after : Arena n} {instrs : List (Fin n)} {graph : Graph}

/-- A graph constructed where no instruction has a block is consistent. -/
theorem consistent_of_construct (free : ∀ i, arena.owner i = none)
    (constructed : construct instrs arena = .ok graph after) :
    after.Consistent graph.members := by
  cases instrs with
  | nil => cases constructed
  | cons first rest =>
      have built := built_of_construct (fun i _ => free i) (fun i _ => free i) constructed
      exact built.consistent

/-- Construction fails because of an instruction or an address, never because of an audit. -/
theorem construct_not_inconsistent {fault : Fault} (free : ∀ i, arena.owner i = none)
    (failed : construct instrs arena = .error fault after) : ¬ fault.IsInconsistent := by
  cases instrs with
  | nil =>
      cases failed
      intro inconsistent
      obtain ⟨problems, same⟩ := inconsistent
      cases same
  | cons first rest =>
      obtain ⟨last, draft, -, fails, -⟩ := fails_of_construct (fun i _ => free i) failed
      cases fails with
      | malformed => exact Instruction.fault_not_inconsistent _ _
      | collision vacant collides =>
          intro inconsistent
          obtain ⟨problems, same⟩ := inconsistent
          rw [(Draft.create_of_error collides).1] at same
          cases same

end Graph

/-! ## Analyses -/

namespace Script

variable {script after : Script n} {fault : Fault}

theorem link_not_inconsistent (failed : link script = .error fault after) :
    ¬ fault.IsInconsistent := by
  unfold link at failed
  split at failed
  next => cases failed
  next missed =>
    cases failed
    obtain ⟨instr, defect, rfl⟩ := Listing.link_of_error missed
    exact instr.fault_not_inconsistent defect

/-- Linking gives no instruction a block. -/
theorem owner_link (linked : link script = .ok () after) (i : Fin n) :
    after.arena.owner i = script.arena.owner i := by
  unfold link at linked
  split at linked
  next found => cases linked; exact (Listing.kept_of_link found i).2
  next => cases linked

section OnArena

variable {α : Type} {action : Action n α}

theorem onArena_of_ok {result : α} (ran : onArena action script = .ok result after) :
    action script.arena = .ok result after.arena := by
  unfold onArena at ran
  split at ran
  next found => cases ran; exact found
  next => cases ran

theorem onArena_of_error (failed : onArena action script = .error fault after) :
    action script.arena = .error fault after.arena := by
  unfold onArena at failed
  split at failed
  next => cases failed
  next found => cases failed; exact found

end OnArena

/-- The passes that the options ask for succeed on consistent blocks. -/
theorem passes_ok {arena : Arena n} {graph : Graph} (options : Options)
    (sound : arena.Consistent graph.members) :
    ∃ dead tagged, tagDeadEdges options graph arena = .ok dead tagged ∧
      verify options graph tagged = .ok () tagged := by
  have kept : ∀ {tagged : Arena n}, tagged.Consistent graph.members →
      verify options graph tagged = .ok () tagged := by
    intro tagged sound
    unfold verify
    split
    next => exact Arena.verify_ok sound
    next => rfl
  unfold tagDeadEdges
  split
  next =>
    obtain ⟨dead, tagged, ran, retags⟩ := Arena.tagDeadEdges_ok sound.kinds
    exact ⟨dead, tagged, ran, kept (sound.retags retags)⟩
  next => exact ⟨[], arena, rfl, kept sound⟩

/-- An analysis of instructions without blocks reports no inconsistency. -/
theorem analyse_not_inconsistent {options : Options}
    (free : ∀ i, script.arena.owner i = none)
    (failed : analyse options script = .error fault after) : ¬ fault.IsInconsistent := by
  rcases error_of_bind failed with unlinked | ⟨_, linked, ran, failed⟩
  · exact link_not_inconsistent unlinked
  have free : ∀ i, linked.arena.owner i = none := fun i => (owner_link ran i).trans (free i)
  rcases error_of_bind failed with read | ⟨_, _, ⟨⟩, failed⟩
  · cases read
  rcases error_of_bind failed with aborted | ⟨graph, built, ran, failed⟩
  · exact Graph.construct_not_inconsistent free (onArena_of_error aborted)
  have sound := Graph.consistent_of_construct free (onArena_of_ok ran)
  obtain ⟨dead, tagged, tags, verifies⟩ := passes_ok options sound
  rcases error_of_bind failed with aborted | ⟨_, marked, ran, failed⟩
  · have untagged := onArena_of_error aborted
    rw [tags] at untagged
    cases untagged
  have same := onArena_of_ok ran
  rw [tags] at same
  injection same with _ same
  rcases error_of_bind failed with aborted | ⟨_, checked, ran, failed⟩
  · have unverified := onArena_of_error aborted
    rw [← same, verifies] at unverified
    cases unverified
  · rcases error_of_bind failed with read | ⟨_, _, ⟨⟩, done⟩
    · cases read
    · cases done

end Script

/-- **Constructed graphs pass their audit.** Where no instruction has a block yet, the
blocks of a graph have no problem once it is constructed, marking their dead edges does
not fail, and they have none after it. No analysis, with whatever options, of a sequence
or of a script, ends in a report of problems. -/
theorem Graph.audit_of_construct (arena : Arena n) (free : ∀ i, arena.owner i = none) :
    (∀ instrs graph after, construct instrs arena = .ok graph after →
      after.audit graph.members = [] ∧
      ∃ dead tagged, Arena.tagDeadEdges graph.members after = .ok dead tagged ∧
        tagged.audit graph.members = []) ∧
    (∀ instrs options problems last,
      analyse instrs options arena ≠ .error (.inconsistent problems) last) ∧
    ∀ listing options problems last,
      Script.analyse options { arena, listing } ≠ .error (.inconsistent problems) last := by
  refine ⟨?_, ?_, ?_⟩
  · intro instrs graph after constructed
    have sound := consistent_of_construct free constructed
    obtain ⟨dead, tagged, ran, retags⟩ := Arena.tagDeadEdges_ok sound.kinds
    exact ⟨Arena.audit_eq_nil_iff.mpr sound, dead, tagged, ran,
      Arena.audit_eq_nil_iff.mpr (sound.retags retags)⟩
  · intro instrs options problems last failed
    unfold analyse at failed
    split at failed
    next unlisted =>
      injection failed with same
      unfold Listing.ofList at unlisted
      split at unlisted
      next => cases unlisted; cases same
      next => cases unlisted
    next =>
      split at failed
      next => cases failed
      next aborted =>
        injection failed with same
        exact Script.analyse_not_inconsistent free aborted ⟨problems, same⟩
  · intro listing options problems last failed
    exact Script.analyse_not_inconsistent free failed ⟨problems, rfl⟩

/-- Two tests of one copied value, of which the second is decided, and a loop. Nothing
is marked as a leader, and two instructions share an address. -/
def Arena.retested : Arena 6 where
  instrs := #v[
    { address := 0, opcode := .cptopsp, args := [-4, 4], follower := some 1 },
    { address := 8, opcode := .jz, branches := [4, 2], follower := some 2 },
    { address := 14, opcode := .cptopsp, args := [-4, 4], follower := some 3 },
    { address := 22, opcode := .jz, branches := [4, 5], follower := some 4 },
    { address := 28, opcode := .nop, follower := some 4 },
    { address := 22, opcode := .retn }]

theorem Graph.audit_of_construct_retested :
    (∀ i, Arena.retested.owner i = none) ∧
    (∃ graph after dead tagged,
      construct [0, 1, 2, 3, 4, 5] Arena.retested = .ok graph after ∧
      graph.members.length = 4 ∧ after.audit graph.members = [] ∧
      Arena.tagDeadEdges graph.members after = .ok dead tagged ∧ dead.length = 1 ∧
      tagged.audit graph.members = []) ∧
    ∀ options problems last, analyse [0, 1, 2, 3, 4, 5] options Arena.retested ≠
      .error (.inconsistent problems) last := by
  have free : ∀ i, Arena.retested.owner i = none := by decide
  have runs : (match construct [0, 1, 2, 3, 4, 5] Arena.retested with
      | .error .. => (0, 0)
      | .ok graph after =>
          match Arena.tagDeadEdges graph.members after with
          | .error .. => (0, 0)
          | .ok dead _ => (graph.members.length, dead.length)) = (4, 1) := by decide +kernel
  obtain ⟨passes, reports, -⟩ := audit_of_construct Arena.retested free
  refine ⟨free, ?_, reports [0, 1, 2, 3, 4, 5]⟩
  cases constructed : construct [0, 1, 2, 3, 4, 5] Arena.retested with
  | error fault after => rw [constructed] at runs; cases runs
  | ok graph after =>
      obtain ⟨clean, dead, tagged, ran, still⟩ := passes _ graph after constructed
      simp only [constructed, ran, Prod.mk.injEq] at runs
      exact ⟨graph, after, dead, tagged, rfl, runs.1, clean, ran, runs.2, still⟩

end ScriptFlow
