import ScriptFlow.Proofs.Coverage
import ScriptFlow.Proofs.Preorder

/-!
# Instructions that no block covers

Blocks of a linked listing go on from neighbour to neighbour, so each of them is a segment of
the listing (`Arena.Built.infix_items`). They list what control reaches and nothing else, so
an audit of the graph against its listing has a line for each instruction that control does
not reach, in program order, and no other line (`Graph.audit_unreached`).
-/

namespace ScriptFlow

variable {n : Nat}

/-- Going on from neighbour to neighbour, a run follows the sequence from its first
instruction on. -/
theorem prefix_drop_of_isChain {items run : List (Fin n)} (once : items.Nodup)
    (chain : run.IsChain fun i j => [i, j] <:+: items) {start : Nat}
    (here : ∀ i ∈ run.head?, items[start]? = some i) : run <+: items.drop start := by
  induction run generalizing start with
  | nil => exact List.nil_prefix
  | cons i rest ih =>
      have stands := here i rfl
      obtain ⟨bound, same⟩ := List.getElem?_eq_some_iff.mp stands
      obtain ⟨next, chain⟩ := List.isChain_cons.mp chain
      rw [List.drop_eq_getElem_cons bound, same, List.cons_prefix_cons]
      refine ⟨rfl, ih chain fun j head => ?_⟩
      exact (Listing.infix_iff_of_getElem? once stands).mp (next j head)

namespace Arena

section Built

variable {code after : Arena n} {items : List (Fin n)} {first : Fin n} {graph : Graph}
  {b : BlockId}

/-- A block is a segment of the listing. -/
theorem Built.infix_items (built : code.Built first graph after) (linked : code.Linked items)
    (entry : first ∈ items) (member : b ∈ graph.members) :
    (after.block b).instrs <:+: items := by
  obtain ⟨head, starts, -⟩ := built.starts b member
  have listed := built.mem_items linked entry member (List.mem_of_mem_head? starts)
  obtain ⟨start, here⟩ := List.getElem?_of_mem listed
  have chain := (built.chain_next linked entry member).imp fun i j next => next.1
  have begins : (after.block b).instrs <+: items.drop start := by
    apply prefix_drop_of_isChain (Listing.nodup_of_rising linked.rising) chain
    intro i first
    rw [starts] at first
    cases first
    exact here
  exact begins.isInfix.trans (List.drop_suffix start items).isInfix

/-- The blocks list what control reaches. -/
theorem Built.mem_flatMap_iff (built : code.Built first graph after) {i : Fin n} :
    (i ∈ graph.members.flatMap fun b => (after.block b).instrs) ↔ code.Reaches first i := by
  rw [List.mem_flatMap]
  constructor
  · rintro ⟨b, member, listed⟩
    exact (built.ownership.listed b member i listed).2
  · exact built.listed_of_reaches

open Classical in
/-- What the blocks leave uncovered is what control does not reach. -/
theorem Built.auditCoverage_eq (built : code.Built first graph after)
    (linked : code.Linked items) (entry : first ∈ items) :
    after.auditCoverage graph.members items =
      (items.filter fun i => ¬ code.Reaches first i).map
        fun i => .uncovered (code.instr i).address := by
  have segments : graph.members.flatMap (after.auditRun items) = [] := by
    rw [List.flatMap_eq_nil_iff]
    intro b member
    rw [auditRun_eq_nil_iff (Listing.nodup_of_rising linked.rising)]
    exact built.infix_items linked entry member
  simp only [auditCoverage, segments, List.append_nil, built.mem_flatMap_iff,
    built.same.address]

end Built

/-- Marking dead edges leaves it at what is covered. -/
theorem Retags.auditCoverage {before after : Arena n} (retags : before.Retags after)
    (blocks : List BlockId) (sequence : List (Fin n)) :
    after.auditCoverage blocks sequence = before.auditCoverage blocks sequence := by
  have runs : after.auditRun sequence = before.auditRun sequence := by
    funext b
    rw [auditRun, retags.instrs, retags.address, auditRun]
  simp only [Arena.auditCoverage, retags.instrs, retags.instr, runs]

/-- An audit of consistent blocks against a sequence is about coverage only. -/
theorem Consistent.audit_some {arena : Arena n} {blocks : List BlockId}
    (sound : arena.Consistent blocks) (sequence : List (Fin n)) :
    arena.audit blocks (some sequence) = arena.auditCoverage blocks sequence := by
  rw [Arena.audit_some, audit_eq_nil_iff.mpr sound, List.nil_append]

end Arena

open Classical in
/-- **Unreached instructions.** After linking fresh instructions and constructing their graph,
an audit of the graph against its listing has a line for every instruction that control does
not reach from the first one, in program order, and no other line. Marking the dead edges of
the graph does not change that. -/
theorem Graph.audit_unreached {arena code after : Arena n} {first : Fin n}
    {rest : List (Fin n)} {listing linked : Listing n} {graph : Graph}
    (fresh : ∀ i ∈ first :: rest, (arena.instr i).IsFresh)
    (listed : Listing.ofList arena (first :: rest) = .ok listing)
    (links : listing.link arena = .ok linked code)
    (constructed : construct linked.items code = .ok graph after) :
    let unreached := (first :: rest).filter fun i => ¬ code.Reaches first i
    let problems := unreached.map fun i => .uncovered (arena.instr i).address
    after.audit graph.members (some linked.items) = problems ∧
      (∃ dead tagged, Arena.tagDeadEdges graph.members after = .ok dead tagged ∧
        tagged.audit graph.members (some linked.items) = problems) ∧
      problems.map Problem.message = unreached.map fun i =>
        ↑s!"instruction {Address.text (arena.instr i).address} belongs to no block" := by
  intro unreached problems
  obtain ⟨chained, built, -⟩ := built_of_fresh fresh listed links constructed
  obtain ⟨items, -, -⟩ := linked_of_fresh fresh listed links
  have entry : first ∈ first :: rest := List.mem_cons_self
  have sound := built.consistent
  have uncovered : after.auditCoverage graph.members linked.items = problems := by
    rw [items, built.auditCoverage_eq chained entry]
    apply List.map_congr_left
    intro i _
    rw [(Listing.kept_of_link links i).1]
  obtain ⟨dead, tagged, ran, retags⟩ := Arena.tagDeadEdges_ok sound.kinds
  refine ⟨?_, ⟨dead, tagged, ran, ?_⟩, ?_⟩
  · rw [sound.audit_some, uncovered]
  · rw [(sound.retags retags).audit_some, retags.auditCoverage, uncovered]
  · rw [List.map_map]
    rfl

open Classical in
/-- The jumps at 16 and at 22, the code between them and the last instruction are not
reached. -/
theorem Graph.audit_unreached_tangled :
    ∃ listing linked code graph after,
      (∀ i ∈ List.finRange 10, (Arena.tangled.instr i).IsFresh) ∧
      Listing.ofList Arena.tangled (List.finRange 10) = .ok listing ∧
      listing.link Arena.tangled = .ok linked code ∧
      construct linked.items code = .ok graph after ∧
      after.audit graph.members (some linked.items) =
        [.uncovered 16, .uncovered 20, .uncovered 22, .uncovered 30] := by
  have fresh : ∀ i ∈ (0 : Fin 10) :: [1, 2, 3, 4, 5, 6, 7, 8, 9],
      (Arena.tangled.instr i).IsFresh := by decide
  have runs : (match (⟨List.finRange 10, false⟩ : Listing 10).link Arena.tangled with
      | .error .. => (false, [])
      | .ok linked code =>
          match construct linked.items code with
          | .error .. => (false, [])
          | .ok .. => (true, (List.finRange 10).filter fun i => i ∉ code.preorder 0)) =
      (true, [4, 5, 6, 9]) := by decide +kernel
  cases links : (⟨List.finRange 10, false⟩ : Listing 10).link Arena.tangled with
  | error fault code => rw [links] at runs; cases runs
  | ok linked code =>
      simp only [links] at runs
      cases constructed : construct linked.items code with
      | error fault after => rw [constructed] at runs; cases runs
      | ok graph after =>
          simp only [constructed, Prod.mk.injEq, true_and] at runs
          obtain ⟨lines, -⟩ := audit_unreached fresh rfl links constructed
          refine ⟨_, linked, code, graph, after, fresh, rfl, links, constructed, lines.trans ?_⟩
          have unreached : ((List.finRange 10).filter fun i => ¬ code.Reaches 0 i) =
              [4, 5, 6, 9] := by
            rw [← runs]
            apply List.filter_congr
            intro i _
            rw [decide_eq_decide, Arena.mem_preorder_iff]
          exact congrArg (List.map _) unreached

end ScriptFlow
