import ScriptFlow.Proofs.Retry

/-!
# Where construction stops

A construction claims instructions in the depth-first preorder of the flow of control
(`Arena.preorder`): the growing block claims what control goes on to, and of the edges that
wait the next one is that of the newest block. `Stage.Trace` says so of every stage, so a
construction stops at the first instruction of that order that is not well formed, and has
claimed what is visited up to there. A linked listing has one instruction at an address, so
it stops for no other reason (`Graph.construct_spec`).
-/

namespace ScriptFlow

variable {n : Nat}

/-! ## Well-formed instructions -/

namespace Instruction

/-- The instruction has the branches that its operation needs, and a call has a follower. -/
def IsWellFormed (instr : Instruction n) : Prop :=
  match instr.opcode with
  | .jmp => instr.branches.length = 1
  | .jz | .jnz => instr.branches.length = 2
  | .jsr | .storestate => instr.branches.length = 1 ∧ instr.follower ≠ none
  | _ => True

theorem length_successors_le (instr : Instruction n) : instr.successors.length ≤ 2 := by
  have follower : instr.follower.toList.length ≤ 1 := by
    cases instr.follower <;> simp
  unfold successors
  split <;> (try simp only [List.length_append, List.length_take, List.length_nil]) <;> omega

theorem isWellFormed_of_not_endsBlock {instr : Instruction n}
    (goesOn : instr.opcode.endsBlock = false) : instr.IsWellFormed := by
  unfold IsWellFormed
  cases operation : instr.opcode <;>
    first | trivial | (rw [operation] at goesOn; cases goesOn)

/-- An instruction is well formed just if the table of edges has a row for it. -/
theorem isWellFormed_iff {instr : Instruction n} :
    instr.IsWellFormed ↔ ∃ edges, instr.Leads edges := by
  constructor
  · intro formed
    by_cases ends : instr.opcode.endsBlock = true
    · unfold IsWellFormed at formed
      rcases Opcode.endsBlock_iff.mp ends with same | same | same | same | same | same <;>
        rw [same] at formed
      · obtain ⟨target, branches⟩ := List.length_eq_one_iff.mp formed
        exact ⟨_, .jump same branches⟩
      · obtain ⟨target, next, branches⟩ := List.length_eq_two.mp formed
        exact ⟨_, .test (.inl same) branches⟩
      · obtain ⟨target, next, branches⟩ := List.length_eq_two.mp formed
        exact ⟨_, .test (.inr same) branches⟩
      · obtain ⟨target, branches⟩ := List.length_eq_one_iff.mp formed.1
        obtain ⟨next, follower⟩ := Option.ne_none_iff_exists'.mp formed.2
        exact ⟨_, .call same branches follower⟩
      · obtain ⟨target, branches⟩ := List.length_eq_one_iff.mp formed.1
        obtain ⟨next, follower⟩ := Option.ne_none_iff_exists'.mp formed.2
        exact ⟨_, .store same branches follower⟩
      · exact ⟨_, .finish same⟩
    · have goesOn := Bool.eq_false_iff.mpr ends
      exact ⟨_, .of_exits (exits_of_not_endsBlock goesOn)⟩
  · rintro ⟨edges, leads⟩
    cases leads with
    | jump operation branches => simp [IsWellFormed, operation, branches]
    | test operation branches =>
        rcases operation with operation | operation <;> simp [IsWellFormed, operation, branches]
    | call operation branches follower => simp [IsWellFormed, operation, branches, follower]
    | store operation branches follower => simp [IsWellFormed, operation, branches, follower]
    | finish operation => simp [IsWellFormed, operation]
    | step goesOn => exact isWellFormed_of_not_endsBlock goesOn
    | stop goesOn => exact isWellFormed_of_not_endsBlock goesOn

end Instruction

/-! ## The order of a depth-first walk -/

namespace Arena

/-- The number of instructions that a walk has not seen. -/
def unseen (seen : List (Fin n)) : Nat :=
  ((List.finRange n).filter fun j => !seen.contains j).length

theorem unseen_append_lt {seen : List (Fin n)} {i : Fin n} (new : i ∉ seen)
    (more : List (Fin n)) : unseen (seen ++ i :: more) < unseen seen := by
  have apart : ((List.finRange n).filter fun j => !(seen ++ i :: more).contains j) =
      ((List.finRange n).filter fun j => !seen.contains j).filter
        fun j => !(i :: more).contains j := by
    rw [List.filter_filter]
    apply List.filter_congr
    intro j _
    rw [List.contains_append, Bool.not_or, Bool.and_comm]
  rw [unseen, apart, unseen, List.length_filter_lt_length_iff_exists]
  exact ⟨i, by simpa using new, by simp⟩

/-- Seeing an instruction pays for as many as it has successors. -/
theorem workload_lt {seen next rest : List (Fin n)} {i : Fin n} (new : i ∉ seen)
    (more : List (Fin n)) (short : next.length ≤ rest.length + 2) :
    3 * unseen (seen ++ i :: more) + next.length < 3 * unseen seen + (i :: rest).length := by
  have fewer := unseen_append_lt new more
  rw [List.length_cons]
  omega

/-- The instructions that a depth-first walk visits from the given ones on, in the order in
which it does: each with all that can be visited through it, before the next one. Those that
it has seen already are passed by. -/
def visits (code : Arena n) (seen next : List (Fin n)) : List (Fin n) :=
  match next with
  | [] => []
  | i :: rest =>
      if i ∈ seen then visits code seen rest
      else
        let below := visits code (seen ++ [i]) (code.instr i).successors
        i :: below ++ visits code (seen ++ i :: below) rest
termination_by 3 * unseen seen + next.length
decreasing_by
  · simp
  · have short := (code.instr i).length_successors_le
    exact workload_lt ‹i ∉ seen› [] (by omega)
  · exact workload_lt ‹i ∉ seen› _ (by omega)

/-- The depth-first preorder of what control reaches from an instruction. -/
def preorder (code : Arena n) (first : Fin n) : List (Fin n) :=
  visits code [] [first]

section Visits

variable {code : Arena n} {seen next rest : List (Fin n)} {first i j : Fin n}

theorem visits_cons_of_mem (known : i ∈ seen) :
    code.visits seen (i :: rest) = code.visits seen rest := by
  rw [visits, if_pos known]

/-- The walk takes one list after the other. -/
theorem visits_append (seen next rest : List (Fin n)) :
    code.visits seen (next ++ rest) =
      code.visits seen next ++ code.visits (seen ++ code.visits seen next) rest := by
  fun_induction Arena.visits code seen next with
  | case1 seen => simp
  | case2 seen i next known ih => rw [List.cons_append, visits_cons_of_mem known, ih]
  | case3 seen i next new below early late =>
      rw [List.cons_append, visits, if_neg new]
      show i :: below ++ code.visits (seen ++ i :: below) (next ++ rest) = _
      rw [late, List.append_assoc, List.append_assoc]

/-- What is visited from an instruction comes before the rest, and is not visited again. -/
theorem visits_cons_of_not_mem (new : i ∉ seen) :
    code.visits seen (i :: rest) =
      i :: code.visits (seen ++ [i]) ((code.instr i).successors ++ rest) := by
  rw [visits, if_neg new, visits_append, List.append_assoc seen]
  rfl

/-- Only what control can reach is visited. -/
theorem reaches_of_mem_visits (inside : ∀ i ∈ next, code.Reaches first i)
    (visited : j ∈ code.visits seen next) : code.Reaches first j := by
  fun_induction Arena.visits code seen next with
  | case1 seen => cases visited
  | case2 seen i next known ih =>
      exact ih (fun k listed => inside k (List.mem_cons_of_mem i listed)) visited
  | case3 seen i next new below early late =>
      have here := inside i List.mem_cons_self
      rcases List.mem_append.mp visited with within | later
      · rcases List.mem_cons.mp within with rfl | further
        · exact here
        · exact early (fun k flows => here.tail flows) further
      · exact late (fun k listed => inside k (List.mem_cons_of_mem i listed)) later

/-- What the walk starts with and what follows on a visit is visited, or has been seen. -/
theorem closed_visits (code : Arena n) (seen next : List (Fin n)) :
    (∀ i ∈ next, i ∈ seen ++ code.visits seen next) ∧
      ∀ i ∈ code.visits seen next, ∀ j, code.Flows i j → j ∈ seen ++ code.visits seen next := by
  fun_induction Arena.visits code seen next with
  | case1 seen => simp
  | case2 seen i next known ih =>
      refine ⟨?_, ih.2⟩
      intro j listed
      rcases List.mem_cons.mp listed with rfl | later
      · exact List.mem_append_left _ known
      · exact ih.1 j later
  | case3 seen i next new below early late =>
      rw [List.append_assoc, List.singleton_append] at early
      rw [List.append_assoc] at late
      refine ⟨?_, ?_⟩
      · intro j listed
        rcases List.mem_cons.mp listed with rfl | later
        · simp
        · exact late.1 j later
      · intro k visited j flows
        rcases List.mem_append.mp visited with within | later
        · have reached : j ∈ seen ++ i :: below := by
            rcases List.mem_cons.mp within with rfl | further
            · exact early.1 j flows
            · exact early.2 k further j flows
          rw [← List.append_assoc]
          exact List.mem_append_left _ reached
        · exact late.2 k later j flows

/-- The preorder lists what control reaches. -/
theorem mem_preorder_iff : j ∈ code.preorder first ↔ code.Reaches first j := by
  constructor
  · apply reaches_of_mem_visits
    intro i listed
    rw [List.mem_singleton.mp listed]
  · obtain ⟨starts, goesOn⟩ := closed_visits code [] [first]
    intro reached
    induction reached with
    | refl => exact starts first (List.mem_singleton_self first)
    | tail _ flows ih => exact goesOn _ ih _ flows

end Visits

end Arena

/-! ## Construction follows it -/

namespace Stage

/-- Where a stage is about to go on: the instruction that is claimed next, and the ends of
the edges that wait. -/
def destinations (growing : Option (BlockId × Fin n)) (links : List (Link n)) :
    List (Fin n) :=
  growing.toList.map (·.2) ++ links.map (·.destination)

/-- A stage has claimed the instructions that are visited so far, all of them well formed,
and is about to visit the others. -/
structure Trace (code : Arena n) (first : Fin n) (stage : Stage n) (visited : List (Fin n)) :
    Prop where
  order : code.preorder first =
    visited ++ code.visits visited (destinations stage.growing stage.links)
  formed : ∀ i ∈ visited, (code.instr i).IsWellFormed
  claimed : ∀ i ∈ visited, stage.draft.arena.owner i ≠ none
  kept : ∀ i, i ∉ visited → stage.draft.arena.owner i = code.owner i

variable {code : Arena n} {first : Fin n} {stage next : Stage n} {visited : List (Fin n)}

theorem destinations_growing (b : BlockId) (i : Fin n) (links : List (Link n)) :
    destinations (some (b, i)) links = i :: links.map (·.destination) := rfl

theorem destinations_ofEdges (b : BlockId) (edges : List (Fin n × EdgeKind))
    (links : List (Link n)) : destinations none (Link.ofEdges b edges ++ links) =
      edges.map (·.1) ++ links.map (·.destination) := by
  simp [destinations, Link.ofEdges, Function.comp_def]

theorem Trace.initial : Trace code first (Stage.initial code first) [] :=
  ⟨rfl, nofun, nofun, fun _ _ => rfl⟩

section Growing

variable {draft : Draft n} {b : BlockId} {i : Fin n} {links : List (Link n)}
  (trace : Trace code first ⟨draft, some (b, i), links⟩ visited)

include trace

theorem Trace.owner_claim : (∀ j ∈ visited ++ [i], (draft.claim b i).arena.owner j ≠ none) ∧
    ∀ j, j ∉ visited ++ [i] → (draft.claim b i).arena.owner j = code.owner j := by
  rw [Draft.arena_claim]
  refine ⟨?_, ?_⟩
  · intro j listed
    rw [Arena.owner_claim]
    split
    next => exact Option.some_ne_none b
    next other =>
      apply trace.claimed j
      simpa [Ne.symm other] using listed
  · intro j absent
    rw [List.mem_append, List.mem_singleton, not_or] at absent
    rw [Arena.owner_claim, if_neg (Ne.symm absent.2)]
    exact trace.kept j absent.1

variable (free : draft.arena.owner i = none)

include free

/-- What is claimed next is what is visited next. -/
theorem Trace.order_growing : i ∉ visited ∧ code.preorder first = visited ++
    i :: code.visits (visited ++ [i])
      ((code.instr i).successors ++ links.map (·.destination)) := by
  have new : i ∉ visited := fun known => trace.claimed i known free
  refine ⟨new, ?_⟩
  rw [trace.order, destinations_growing, Arena.visits_cons_of_not_mem new]

theorem Trace.claim {growing : Option (BlockId × Fin n)} {more : List (Link n)}
    (formed : (code.instr i).IsWellFormed) (goesOn : destinations growing more =
      (code.instr i).successors ++ links.map (·.destination)) :
    Trace code first ⟨draft.claim b i, growing, more⟩ (visited ++ [i]) := by
  obtain ⟨-, order⟩ := trace.order_growing free
  obtain ⟨claimed, kept⟩ := trace.owner_claim
  refine ⟨?_, ?_, claimed, kept⟩
  · rw [order, goesOn, List.append_assoc]
    rfl
  · intro j listed
    rcases List.mem_append.mp listed with known | here
    · exact trace.formed j known
    · rwa [List.mem_singleton.mp here]

end Growing

/-- One edit visits one instruction, or passes by what has been visited. -/
theorem Trace.step (trace : Trace code first stage visited)
    (unowned : ∀ i, code.Reaches first i → code.owner i = none)
    (agenda : Agenda code first stage) (step : Step code stage next) :
    ∃ visited, Trace code first next visited := by
  cases step with
  | @extend draft b i j links free continues vacant =>
      have formed := Instruction.isWellFormed_of_not_endsBlock continues.goesOn
      refine ⟨_, trace.claim free formed ?_⟩
      rw [Instruction.successors_of_not_endsBlock continues.goesOn, continues.follower]
      rfl
  | @close draft b i links edges free leads waits =>
      refine ⟨_, trace.claim free (Instruction.isWellFormed_iff.mpr ⟨edges, leads⟩) ?_⟩
      rw [destinations_ofEdges, leads.successors_eq]
  | @reuse draft p c d kind links owned =>
      have known : d ∈ visited := by
        by_contra new
        have reached := (agenda.links _ List.mem_cons_self).2
        have kept := trace.kept d new
        rw [unowned d reached, owned] at kept
        cases kept
      refine ⟨visited, ?_, trace.formed, trace.claimed, trace.kept⟩
      rw [trace.order]
      exact congrArg _ (Arena.visits_cons_of_mem known)
  | @create draft made p c d kind links free created =>
      have owner : ∀ i, (made.addChild p c kind).arena.owner i = draft.arena.owner i := by
        intro i
        rw [Draft.arena_addChild, Arena.owner_addChild, owner_created created]
      refine ⟨visited, trace.order, trace.formed, ?_, ?_⟩
      · intro i listed
        rw [owner]
        exact trace.claimed i listed
      · intro i absent
        rw [owner]
        exact trace.kept i absent

/-- **Order.** Every stage has claimed the first instructions of the preorder, and is about
to visit the others. -/
theorem trace_of_steps (unowned : ∀ i, code.Reaches first i → code.owner i = none)
    (steps : Steps code (initial code first) stage) :
    ∃ visited, Trace code first stage visited := by
  induction steps with
  | refl => exact ⟨[], .initial⟩
  | tail early step ih =>
      obtain ⟨visited, trace⟩ := ih
      exact trace.step unowned (sound_of_steps unowned early).agenda step

end Stage

/-! ## Success and failure -/

namespace Graph

variable {arena code : Arena n} {first : Fin n} {rest : List (Fin n)}
  {listing linked : Listing n}

/-- **Construction.** Over linked fresh instructions a graph is constructed just if all that
control reaches from the first one is well formed. Otherwise construction stops at the first
instruction in depth-first preorder that is not, reports it by its address and operation, and
has given a block to what is visited up to there, and to nothing else. -/
theorem construct_spec (fresh : ∀ i ∈ first :: rest, (arena.instr i).IsFresh)
    (listed : Listing.ofList arena (first :: rest) = .ok listing)
    (links : listing.link arena = .ok linked code) :
    ((∃ graph after, construct linked.items code = .ok graph after) ↔
      ∀ i, code.Reaches first i → (code.instr i).IsWellFormed) ∧
    ∀ fault after, construct linked.items code = .error fault after →
      ∃ before i later defect, code.preorder first = before ++ i :: later ∧
        (∀ j ∈ before, (code.instr j).IsWellFormed) ∧ ¬ (code.instr i).IsWellFormed ∧
        (code.instr i).exits = .error defect ∧
        fault = .malformed (code.instr i).address (.known (code.instr i).opcode) defect ∧
        (∀ j ∈ first :: rest, after.owner j ≠ none ↔ j ∈ before ++ [i]) ∧
        ∀ j, j ∉ first :: rest → after.owner j = arena.owner j := by
  obtain ⟨items, chained, free⟩ := linked_of_fresh fresh listed links
  have inside : ∀ i, code.Reaches first i → i ∈ first :: rest := fun i reached =>
    chained.mem_of_reaches List.mem_cons_self reached
  have unowned : ∀ i, code.Reaches first i → code.owner i = none := fun i reached =>
    free i (inside i reached)
  have apart : ∀ i j, code.Reaches first i → code.Reaches first j →
      (code.instr i).address = (code.instr j).address → i = j := fun i j left right =>
    chained.eq_of_address (inside i left) (inside j right)
  rw [items]
  refine ⟨⟨?_, ?_⟩, ?_⟩
  · rintro ⟨graph, after, constructed⟩ i reached
    have made := built_of_construct free unowned constructed
    exact Instruction.isWellFormed_iff.mpr (made.leads_of_reaches reached)
  · intro formed
    exact construct_ok free unowned apart fun i reached =>
      Instruction.isWellFormed_iff.mp (formed i reached)
  · intro fault after failed
    obtain ⟨last, reached, steps, fails, rfl⟩ := fails_of_construct free failed
    have sound := Stage.sound_of_steps unowned steps
    obtain ⟨draft, b, i, waiting, defect, rfl, vacant, -, found, rfl, rfl⟩ :=
      sound.malformed_of_fails apart fails
    obtain ⟨before, trace⟩ := Stage.trace_of_steps unowned steps
    obtain ⟨-, order⟩ := trace.order_growing vacant
    obtain ⟨claimed, kept⟩ := trace.owner_claim
    refine ⟨before, i, _, defect, order, trace.formed, ?_, found, rfl, ?_, ?_⟩
    · intro formed
      obtain ⟨edges, leads⟩ := Instruction.isWellFormed_iff.mp formed
      rw [leads.exits] at found
      cases found
    · intro j member
      refine ⟨fun owned => ?_, claimed j⟩
      by_contra absent
      exact owned ((kept j absent).trans (free j member))
    · intro j outside
      have absent : j ∉ before ++ [i] := by
        intro visited
        have listed : j ∈ code.preorder first := by
          rw [order, List.append_cons]
          exact List.mem_append_left _ visited
        exact outside (inside j (Arena.mem_preorder_iff.mp listed))
      rw [kept j absent, (Listing.kept_of_link links j).2]

end Graph

/-- A call that comes back to a test, which jumps to a `JMP` without a target. -/
def Arena.cutShort : Arena 7 where
  instrs := #v[
    { address := 0, opcode := .jsr, targets := [16] },
    { address := 6, opcode := .jz, targets := [20] },
    { address := 12, opcode := .nop },
    { address := 14, opcode := .retn },
    { address := 16, opcode := .nop },
    { address := 18, opcode := .retn },
    { address := 20, opcode := .jmp }]

/-- What is called and the test have a block when construction stops, and what follows on the
test has none. -/
theorem Graph.construct_spec_cutShort :
    ∃ listing linked code fault after,
      (∀ i ∈ List.finRange 7, (Arena.cutShort.instr i).IsFresh) ∧
      Listing.ofList Arena.cutShort (List.finRange 7) = .ok listing ∧
      listing.link Arena.cutShort = .ok linked code ∧
      code.preorder 0 = [0, 4, 5, 1, 6, 2, 3] ∧
      construct linked.items code = .error fault after ∧
      fault = .malformed 20 (.known .jmp) (.branchCount 1 0) ∧
      ¬ (∀ i, code.Reaches 0 i → (code.instr i).IsWellFormed) ∧
      ∀ i, after.owner i ≠ none ↔ i ∈ [0, 4, 5, 1, 6] := by
  have fresh : ∀ i ∈ (0 : Fin 7) :: [1, 2, 3, 4, 5, 6], (Arena.cutShort.instr i).IsFresh := by
    decide
  have runs : (match (⟨List.finRange 7, false⟩ : Listing 7).link Arena.cutShort with
      | .error .. => false
      | .ok linked code =>
          match construct linked.items code with
          | .ok .. => false
          | .error fault _ => decide (code.preorder 0 = [0, 4, 5, 1, 6, 2, 3] ∧
              fault = .malformed 20 (.known .jmp) (.branchCount 1 0) ∧
              ∀ i, (code.instr i).address = 20 → i = 6)) = true := by
    decide +kernel
  cases links : (⟨List.finRange 7, false⟩ : Listing 7).link Arena.cutShort with
  | error fault code => rw [links] at runs; cases runs
  | ok linked code =>
      simp only [links] at runs
      obtain ⟨succeeds, stops⟩ := construct_spec fresh rfl links
      cases constructed : construct linked.items code with
      | ok graph after => rw [constructed] at runs; cases runs
      | error fault after =>
          simp only [constructed, decide_eq_true_eq] at runs
          obtain ⟨order, reported, alone⟩ := runs
          refine ⟨_, linked, code, fault, after, fresh, rfl, links, order, constructed, reported,
            ?_, ?_⟩
          · intro formed
            obtain ⟨graph, built, returned⟩ := succeeds.mpr formed
            rw [constructed] at returned
            cases returned
          · obtain ⟨before, i, later, defect, split, -, -, -, fault, owners, -⟩ :=
              stops _ _ constructed
            rw [reported] at fault
            injection fault with address
            obtain rfl := alone i address.symm
            rw [order] at split
            have visited : before = [0, 4, 5, 1] ∧ later = [2, 3] := by
              simpa [List.cons_eq_append_iff] using split
            rw [visited.1] at owners
            have all : ∀ j : Fin 7, j ∈ (0 : Fin 7) :: [1, 2, 3, 4, 5, 6] := by decide
            exact fun j => owners j (all j)

end ScriptFlow
