import ScriptFlow.Proofs.Marking
import ScriptFlow.Proofs.Queries

/-!
# What options change

Where no instruction has a block yet, two analyses of one script go through the same linking
and the same construction, and the audit finds nothing, so they differ in the dead edges at
most (`DifferInDead`). An edge can only be found dead where a block doubles the top of the
stack and tests the copy; it was an edge of a conditional jump then, never a call, and no
query asks for more.
-/

namespace ScriptFlow

variable {n : Nat}

/-! ## Dead edges and the kinds of edges -/

/-- A test is left by its two conditional edges. -/
theorem Instruction.Leads.kinds_of_jz {instr : Instruction n}
    {edges : List (Fin n × EdgeKind)} (leads : instr.Leads edges) (tests : instr.opcode = .jz) :
    edges.map (·.2) = [.conditionalTrue, .conditionalFalse] := by
  cases leads with
  | test => rfl
  | jump operation => rw [tests] at operation; cases operation
  | call operation => rw [tests] at operation; cases operation
  | store operation => rw [tests] at operation; cases operation
  | finish operation => rw [tests] at operation; cases operation
  | step goesOn => rw [tests] at goesOn; cases goesOn
  | stop goesOn => rw [tests] at goesOn; cases goesOn

namespace Arena

/-- The block doubles the top of the stack, tests the copy, and does nothing else. -/
def DoublesAndTests (arena : Arena n) (b : BlockId) : Prop :=
  ∃ doubler test, (arena.block b).instrs = [doubler, test] ∧
    (arena.instr doubler).opcode = .cptopsp ∧ (arena.instr doubler).args = [-4, 4] ∧
    (arena.instr test).opcode = .jz

theorem Retests.doublesAndTests {arena : Arena n} {b : BlockId} (retests : arena.Retests b) :
    arena.DoublesAndTests b := by
  have jumper := retests.jumper
  obtain ⟨doubler, test, instrs⟩ := List.length_eq_two.mp retests.alone
  rw [isTopStackJumper, instrs] at jumper
  simp only [List.reverse_cons, List.reverse_nil, List.nil_append, List.cons_append,
    Instruction.isStackDoubler, Instruction.doublerArgs, Bool.and_eq_true,
    decide_eq_true_eq] at jumper
  obtain ⟨⟨-, doubles, copies⟩, tests⟩ := jumper
  exact ⟨doubler, test, instrs, doubles, of_decide_eq_true copies, tests⟩

section Built

variable {code built : Arena n} {first : Fin n} {graph : Graph} {b : BlockId}

/-- A block that tests the top of the stack is left by the edges of a conditional jump. -/
theorem Built.kinds_of_retests (made : code.Built first graph built)
    (member : b ∈ graph.members) (retests : built.Retests b) :
    (built.block b).kinds = [.conditionalTrue, .conditionalFalse] := by
  obtain ⟨doubler, test, instrs, -, -, tests⟩ := retests.doublesAndTests
  obtain ⟨last, edges, ends, leads, kinds, -⟩ := made.edges b member
  rw [instrs] at ends
  obtain rfl : test = last := Option.some.inj ends
  rw [made.same.opcode] at tests
  rw [kinds, leads.kinds_of_jz tests]

/-- Marking the dead edge of a block changes one of two conditional edges, or nothing. -/
theorem Built.markedKinds_cases (made : code.Built first graph built)
    (member : b ∈ graph.members) :
    built.markedKinds b = (built.block b).kinds ∨
      (built.Retests b ∧
        (built.block b).kinds = [.conditionalTrue, .conditionalFalse] ∧
        (built.markedKinds b = [.dead, .conditionalFalse] ∨
          built.markedKinds b = [.conditionalTrue, .dead])) := by
  cases found : built.deadEdge? b with
  | none => exact .inl (by rw [markedKinds, found])
  | some edge =>
      obtain ⟨retests, -, shared, -, slot, -⟩ := deadEdge?_eq_some_iff.mp found
      have kinds := made.kinds_of_retests member retests
      refine .inr ⟨retests, kinds, ?_⟩
      rw [markedKinds, found, kinds]
      dsimp only
      cases shared with
      | zero => exact .inr (by rw [slot]; rfl)
      | succ place =>
          have start : edge.slot = 0 := slot.trans (Nat.sub_eq_zero_of_le (Nat.le_add_left 1 place))
          exact .inl (by rw [start]; rfl)

/-- Where marking changes a kind, it makes an edge of a conditional jump dead. -/
theorem Built.slot_of_markedKinds (made : code.Built first graph built)
    (member : b ∈ graph.members) {slot : Nat} {marked plain : EdgeKind}
    (here : (built.markedKinds b)[slot]? = some marked)
    (there : (built.block b).kinds[slot]? = some plain) (differ : marked ≠ plain) :
    built.Retests b ∧ marked = .dead ∧ (plain = .conditionalTrue ∨ plain = .conditionalFalse) := by
  rcases made.markedKinds_cases member with same | ⟨retests, kinds, changed⟩
  · rw [same, there] at here
    exact (differ (Option.some.inj here).symm).elim
  · refine ⟨retests, ?_⟩
    rw [kinds] at there
    match slot, changed with
    | 0, .inl first => rw [first] at here; cases here; cases there; exact ⟨rfl, .inl rfl⟩
    | 1, .inr second => rw [second] at here; cases here; cases there; exact ⟨rfl, .inr rfl⟩
    | 0, .inr second => rw [second] at here; cases here; cases there; exact (differ rfl).elim
    | 1, .inl first => rw [first] at here; cases here; cases there; exact (differ rfl).elim
    | _ + 2, _ => cases there

/-- Marking changes one kind of a block at most. -/
theorem Built.slot_unique (made : code.Built first graph built) (member : b ∈ graph.members)
    {slot slot' : Nat} (here : (built.markedKinds b)[slot]? ≠ (built.block b).kinds[slot]?)
    (there : (built.markedKinds b)[slot']? ≠ (built.block b).kinds[slot']?) : slot = slot' := by
  rcases made.markedKinds_cases member with same | ⟨-, kinds, first | second⟩
  · exact (here (by rw [same])).elim
  · rw [kinds, first] at here there
    match slot, slot' with
    | 0, 0 => rfl
    | 1, _ | _ + 2, _ => exact (here rfl).elim
    | _, 1 | _, _ + 2 => exact (there rfl).elim
  · rw [kinds, second] at here there
    match slot, slot' with
    | 1, 1 => rfl
    | 0, _ | _ + 2, _ => exact (here rfl).elim
    | _, 0 | _, _ + 2 => exact (there rfl).elim

/-- Marking leaves it as it is which edges are calls. -/
theorem Built.calls_markedKinds (made : code.Built first graph built)
    (member : b ∈ graph.members) :
    (built.markedKinds b).map EdgeKind.isSubroutineCall =
      (built.block b).kinds.map EdgeKind.isSubroutineCall := by
  rcases made.markedKinds_cases member with same | ⟨-, kinds, first | second⟩
  · rw [same]
  · rw [first, kinds]
    rfl
  · rw [second, kinds]
    rfl

end Built

end Arena

/-! ## One pass, with and without it -/

namespace Script

variable {built tagged : Arena n} {graph : Graph} {dead : List DeadEdge} {options : Options}
  (tags : tagDeadEdges options graph built = .ok dead tagged)

include tags

theorem retags_of_tagDeadEdges : built.Retags tagged := by
  unfold tagDeadEdges at tags
  split at tags
  next => exact Arena.retags_of_tagDeadEdges tags
  next => cases tags; exact .refl _

/-- If the options ask for it, the blocks of the graph are marked, and no other ones. -/
theorem kinds_of_tagDeadEdges (b : BlockId) : (tagged.block b).kinds =
    if options.findDeadEdges = true ∧ b ∈ graph.members then built.markedKinds b
    else (built.block b).kinds := by
  unfold tagDeadEdges at tags
  split at tags
  next seeks => simp only [seeks, true_and, Arena.kinds_tagDeadEdges tags]
  next skips => cases tags; rw [if_neg fun both => skips both.1]

/-- As many edges are reported as dead as are marked so. -/
theorem length_of_tagDeadEdges {code : Arena n} {first : Fin n}
    (made : code.Built first graph built) :
    dead.length = (graph.members.flatMap fun b => (tagged.block b).kinds).count .dead := by
  unfold tagDeadEdges at tags
  split at tags
  next =>
    exact Arena.length_of_tagDeadEdges made.consistent.kinds
      (fun b => made.dead_not_mem_kinds) tags
  next =>
    cases tags
    symm
    rw [List.length_nil, List.count_eq_zero]
    intro listed
    obtain ⟨b, member, here⟩ := List.mem_flatMap.mp listed
    exact made.dead_not_mem_kinds member here

end Script

/-! ## The queries -/

namespace Arena

variable {code built left right : Arena n} {first : Fin n} {graph : Graph}

theorem Built.closed (made : code.Built first graph built) : built.Closed graph.members :=
  ⟨made.linkage.children,
    fun _ member _ => (made.mem_parents_iff member).mp,
    made.consistent.kinds⟩

/-- Other kinds leave the edges of the blocks among them. -/
theorem Closed.retags {blocks : List BlockId} (closed : left.Closed blocks)
    (retags : left.Retags right) : right.Closed blocks := by
  constructor
  · simpa only [retags.children] using closed.children
  · simpa only [retags.parents, retags.children] using closed.parents
  · simpa only [retags.children, retags.length_kinds] using closed.kinds

end Arena

/-! ## Two runs -/

/-- The kinds that an edge has in two runs where they differ: in the one that looks for dead
edges it is dead, and in the other an edge of a conditional jump. -/
structure Options.Tells (seeking skipping : Options) (marked plain : EdgeKind) : Prop where
  seeks : seeking.findDeadEdges = true
  skips : skipping.findDeadEdges = false
  marked : marked = .dead
  plain : plain = .conditionalTrue ∨ plain = .conditionalFalse

/-- Two runs that have constructed the same graph leave the same instructions and blocks, but
for one edge of a block that doubles and tests, which one of them has found dead. Queries
are answered alike. -/
structure Graph.DiffersInDead (graph : Graph) (one other : Options) (left right : Arena n) :
    Prop where
  retags : left.Retags right
  slots : ∀ (b : BlockId) (slot : Nat) (kind kind' : EdgeKind),
    (left.block b).kinds[slot]? = some kind → (right.block b).kinds[slot]? = some kind' →
    kind ≠ kind' →
      b ∈ graph.members ∧ left.DoublesAndTests b ∧
        (one.Tells other kind kind' ∨ other.Tells one kind' kind)
  single : ∀ (b : BlockId) (slot slot' : Nat),
    (left.block b).kinds[slot]? ≠ (right.block b).kinds[slot]? →
    (left.block b).kinds[slot']? ≠ (right.block b).kinds[slot']? → slot = slot'
  answers : graph.AnswersAlike left right

section Runs

variable {code built left right : Arena n} {first : Fin n} {graph : Graph}
  {dead dead' : List DeadEdge} {one other : Options}

/-- Where the kinds of a block differ between two runs, one of them has looked for dead edges
and marked the block, and the other has left it as it was. -/
theorem Script.sides_of_tagDeadEdges
    (tags : Script.tagDeadEdges one graph built = .ok dead left)
    (tags' : Script.tagDeadEdges other graph built = .ok dead' right) {b : BlockId}
    (differ : (left.block b).kinds ≠ (right.block b).kinds) : b ∈ graph.members ∧
      ((one.findDeadEdges = true ∧ other.findDeadEdges = false ∧
          (left.block b).kinds = built.markedKinds b ∧
          (right.block b).kinds = (built.block b).kinds) ∨
        (other.findDeadEdges = true ∧ one.findDeadEdges = false ∧
          (left.block b).kinds = (built.block b).kinds ∧
          (right.block b).kinds = built.markedKinds b)) := by
  have kinds := kinds_of_tagDeadEdges tags b
  have kinds' := kinds_of_tagDeadEdges tags' b
  by_cases member : b ∈ graph.members
  · refine ⟨member, ?_⟩
    simp only [member, and_true] at kinds kinds'
    cases seeks : one.findDeadEdges with
    | true =>
        cases seeks' : other.findDeadEdges with
        | true => simp [kinds, kinds', seeks, seeks'] at differ
        | false =>
            exact .inl ⟨rfl, rfl, by simpa [seeks] using kinds, by simpa [seeks'] using kinds'⟩
    | false =>
        cases seeks' : other.findDeadEdges with
        | true =>
            exact .inr ⟨rfl, rfl, by simpa [seeks] using kinds, by simpa [seeks'] using kinds'⟩
        | false => simp [kinds, kinds', seeks, seeks'] at differ
  · rw [if_neg fun both => member both.2] at kinds kinds'
    exact (differ (kinds.trans kinds'.symm)).elim

/-- Two runs that mark one graph differ in dead edges only. -/
theorem Graph.differsInDead_of_tags (made : code.Built first graph built)
    (tags : Script.tagDeadEdges one graph built = .ok dead left)
    (tags' : Script.tagDeadEdges other graph built = .ok dead' right) :
    graph.DiffersInDead one other left right := by
  have early := Script.retags_of_tagDeadEdges tags
  have retags := early.symm.trans (Script.retags_of_tagDeadEdges tags')
  have sides : ∀ b, (left.block b).kinds ≠ (right.block b).kinds → _ := fun b =>
    Script.sides_of_tagDeadEdges tags tags'
  refine ⟨retags, ?_, ?_, answersAlike_of_echoes ⟨?_, ?_, ?_, ?_⟩ (made.closed.retags early)⟩
  · intro b slot kind kind' here there differ
    have apart : (left.block b).kinds ≠ (right.block b).kinds := by
      intro same
      rw [same, there] at here
      exact differ (Option.some.inj here).symm
    obtain ⟨member, ⟨seeks, skips, marked, plain⟩ | ⟨seeks, skips, plain, marked⟩⟩ := sides b apart
    · rw [marked] at here
      rw [plain] at there
      obtain ⟨retests, dead, jump⟩ := made.slot_of_markedKinds member here there differ
      exact ⟨member, ((early.retests b).mpr retests).doublesAndTests,
        .inl ⟨seeks, skips, dead, jump⟩⟩
    · rw [plain] at here
      rw [marked] at there
      obtain ⟨retests, dead, jump⟩ := made.slot_of_markedKinds member there here (Ne.symm differ)
      exact ⟨member, ((early.retests b).mpr retests).doublesAndTests,
        .inr ⟨seeks, skips, dead, jump⟩⟩
  · intro b slot slot' here there
    have apart : (left.block b).kinds ≠ (right.block b).kinds := fun same => here (by rw [same])
    obtain ⟨member, ⟨-, -, marked, plain⟩ | ⟨-, -, plain, marked⟩⟩ := sides b apart
    · rw [marked, plain] at here there
      exact made.slot_unique member here there
    · rw [marked, plain] at here there
      exact made.slot_unique member (Ne.symm here) (Ne.symm there)
  · intro b _ c _
    rw [retags.address, retags.address]
  · exact fun b _ => retags.children b
  · exact fun b _ => retags.parents b
  · intro b _
    by_cases same : (left.block b).kinds = (right.block b).kinds
    · rw [same]
    · obtain ⟨member, ⟨-, -, marked, plain⟩ | ⟨-, -, plain, marked⟩⟩ := sides b same
      · rw [marked, plain, made.calls_markedKinds member]
      · rw [marked, plain, made.calls_markedKinds member]

/-- Where no instruction has a block, an analysis with any options stops in the same way, or
goes on from the same graph. -/
theorem Script.analyse_cases {arena : Arena n} (free : ∀ i, arena.owner i = none)
    (listing : Listing n) :
    (∃ fault after, ∀ options,
      outcome (analyse options { arena, listing }) = .error fault after) ∨
    ∃ (graph : Graph) (first : Fin n) (code built : Arena n), code.Built first graph built ∧
      ∀ options, ∃ dead tagged linked, tagDeadEdges options graph built = .ok dead tagged ∧
        outcome (analyse options { arena, listing }) =
          .ok ⟨graph, dead, report { arena := tagged, listing := linked } graph dead⟩ tagged := by
  cases links : listing.link arena with
  | error fault code =>
      refine .inl ⟨fault, code, fun options => ?_⟩
      rw [analyse_of_unlinked links]
      rfl
  | ok linked code =>
      have unowned : ∀ i, code.owner i = none := fun i =>
        (Listing.kept_of_link links i).2.trans (free i)
      cases constructed : Graph.construct linked.items code with
      | error fault built =>
          refine .inl ⟨fault, built, fun options => ?_⟩
          rw [analyse_of_refused links constructed]
          rfl
      | ok graph built =>
          obtain ⟨first, made⟩ : ∃ first, code.Built first graph built := by
            cases items : linked.items with
            | nil => rw [items] at constructed; cases constructed
            | cons first rest =>
                rw [items] at constructed
                exact ⟨first, Graph.built_of_construct (fun i _ => unowned i)
                  (fun i _ => unowned i) constructed⟩
          refine .inr ⟨graph, first, code, built, made, fun options => ?_⟩
          obtain ⟨dead, tagged, tags, verifies⟩ := passes_ok options made.consistent
          refine ⟨dead, tagged, linked, tags, ?_⟩
          rw [analyse_of_tagged links constructed tags verifies]
          rfl

end Runs

/-- Two runs fail alike, or both return the same graph, with some edges dead for one of
them. -/
inductive DifferInDead (one other : Options) :
    EStateM.Result Fault (Arena n) Analysis → EStateM.Result Fault (Arena n) Analysis → Prop
  | failed (fault : Fault) (after : Arena n) :
    DifferInDead one other (.error fault after) (.error fault after)
  | returned {result result' : Analysis} {left right : Arena n} :
    result'.graph = result.graph → result.graph.DiffersInDead one other left right →
    DifferInDead one other (.ok result left) (.ok result' right)

/-- The last event sums the graph up, and gives the number of edges that are marked dead. -/
def Analysis.SumsUp (result : Analysis) (after : Arena n) : Prop :=
  ∃ earlier, result.events = earlier ++ [.finished result.graph.members.length
    ((result.graph.members.flatMap fun b => (after.block b).kinds).count .dead)
    (result.graph.edgeCounts after)]

section Options

variable {arena : Arena n} (free : ∀ i, arena.owner i = none)

include free

theorem Script.differInDead_of_free (listing : Listing n) (one other : Options) :
    DifferInDead one other (outcome (analyse one { arena, listing }))
      (outcome (analyse other { arena, listing })) := by
  rcases analyse_cases free listing with ⟨fault, after, fails⟩ | ⟨graph, first, code, built,
    made, runs⟩
  · rw [fails, fails]
    exact .failed fault after
  · obtain ⟨dead, left, linked, tags, ran⟩ := runs one
    obtain ⟨dead', right, linked', tags', ran'⟩ := runs other
    rw [ran, ran']
    exact .returned rfl (Graph.differsInDead_of_tags made tags tags')

theorem Script.sumsUp_of_free {listing : Listing n} {options : Options} {result : Analysis}
    {after : Arena n}
    (analysed : outcome (analyse options { arena, listing }) = .ok result after) :
    result.SumsUp after := by
  rcases analyse_cases free listing with ⟨fault, after, fails⟩ | ⟨graph, first, code, built,
    made, runs⟩
  · rw [fails] at analysed
    cases analysed
  · obtain ⟨dead, tagged, linked, tags, ran⟩ := runs options
    rw [ran] at analysed
    cases analysed
    have count := length_of_tagDeadEdges tags made
    unfold Analysis.SumsUp
    dsimp only
    rw [← count]
    exact ⟨_, rfl⟩

/-- **Options.** Where no instruction has a block, two analyses of a sequence or of a script
fail alike, whatever their options, or return the same graph with the same blocks but for
edges of conditional jumps that one of them has found dead. Queries do not tell these apart.
The summary of an analysis counts the edges that are dead in its graph. -/
theorem analyse_options (one other : Options) :
    (∀ instrs, DifferInDead one other (analyse instrs one arena) (analyse instrs other arena)) ∧
    (∀ listing, DifferInDead one other
      (Script.outcome (Script.analyse one { arena, listing }))
      (Script.outcome (Script.analyse other { arena, listing }))) ∧
    (∀ instrs result after, analyse instrs one arena = .ok result after → result.SumsUp after) ∧
    ∀ listing result after, Script.outcome (Script.analyse one { arena, listing }) =
      .ok result after → result.SumsUp after := by
  refine ⟨?_, fun listing => Script.differInDead_of_free free listing one other, ?_,
    fun listing result after => Script.sumsUp_of_free free⟩
  · intro instrs
    cases listed : Listing.ofList arena instrs with
    | error fault =>
        rw [analyse_of_unlisted listed, analyse_of_unlisted listed]
        exact .failed fault arena
    | ok listing =>
        rw [analyse_of_listed listed, analyse_of_listed listed]
        exact Script.differInDead_of_free free listing one other
  · intro instrs result after analysed
    cases listed : Listing.ofList arena instrs with
    | error fault =>
        rw [analyse_of_unlisted listed] at analysed
        cases analysed
    | ok listing =>
        rw [analyse_of_listed listed] at analysed
        exact Script.sumsUp_of_free free analysed

end Options

theorem analyse_options_shortCircuit :
    ∃ result result' left right, (∀ i, Arena.shortCircuit.owner i = none) ∧
      analyse (List.finRange 7) {} Arena.shortCircuit = .ok result left ∧
      analyse (List.finRange 7) { findDeadEdges := false } Arena.shortCircuit =
        .ok result' right ∧
      result.deadEdges.length = 1 ∧ result'.deadEdges.length = 0 ∧
      result.graph.DiffersInDead {} { findDeadEdges := false } left right ∧
      result.SumsUp left := by
  have free : ∀ i, Arena.shortCircuit.owner i = none := by decide
  obtain ⟨differ, -, sums, -⟩ :=
    analyse_options free {} { findDeadEdges := false }
  have runs : (match analyse (List.finRange 7) {} Arena.shortCircuit,
        analyse (List.finRange 7) { findDeadEdges := false } Arena.shortCircuit with
      | .ok result _, .ok result' _ => (result.deadEdges.length, result'.deadEdges.length)
      | _, _ => (0, 0)) = (1, 0) := by
    decide +kernel
  have differ := differ (List.finRange 7)
  cases ran : analyse (List.finRange 7) {} Arena.shortCircuit with
  | error fault after => rw [ran] at runs; cases runs
  | ok result left =>
      cases ran' : analyse (List.finRange 7) { findDeadEdges := false }
          Arena.shortCircuit with
      | error fault after => rw [ran, ran'] at runs; cases runs
      | ok result' right =>
          simp only [ran, ran', Prod.mk.injEq] at runs
          rw [ran, ran'] at differ
          cases differ with
          | returned same differs =>
              exact ⟨result, result', left, right, free, rfl, rfl, runs.1, runs.2, differs,
                sums _ result left ran⟩

end ScriptFlow
