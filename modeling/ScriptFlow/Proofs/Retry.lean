import ScriptFlow.Proofs.Coherence
import ScriptFlow.Proofs.Partition
import ScriptFlow.Proofs.Resolution

/-!
# Second attempts

An analysis that fails leaves what it has done, and an analysis of the same sequence that
comes after it starts from there. If the first one got to construction, an instruction has
a block now, and the second one is refused. If it did not get past the order of the
addresses, nothing has changed.

In between, linking may have stopped at a target that is no instruction. By then the
instructions are chained, which is enough for the second analysis to take them as linked:
it goes on to construct a graph, without the branches that are missing.
`refused_again_iff` says when it succeeds.
-/

namespace ScriptFlow

variable {n : Nat}

/-! ## Linking that stops -/

namespace Listing

variable {listing : Listing n} {arena after : Arena n}

/-- Where linking stops, the items are chained, and no branch leads out of the listing. -/
theorem linked_of_stopped {fault : Fault}
    (rising : listing.items.Pairwise fun i j =>
      (arena.instr i).address < (arena.instr j).address)
    (fresh : ∀ i ∈ listing.items, (arena.instr i).isResolved = false)
    (failed : listing.link arena = .error fault after) : after.Linked listing.items := by
  obtain ⟨-, stopped⟩ := resolveAll_of_link failed
  have settles := (sustains_resolveAll listing.items).of_error stopped
  simp only [Instruction.isResolved, Bool.or_eq_false_iff, Option.isSome_eq_false_iff,
    Option.isNone_iff_eq_none, Bool.not_eq_false', List.isEmpty_iff] at fresh
  refine linked_of_resolves settles.resolves rising (fun i listed => (fresh i listed).1) ?_
  intro i listed
  apply settles.settled
  intro j branch
  rw [branches_chained, (fresh i listed).2] at branch
  cases branch

/-- A listing of one item that cannot be linked is left unresolved. -/
theorem unresolved_of_stopped {i : Fin n} {fault : Fault}
    (fresh : (arena.instr i).isResolved = false)
    (failed : link ⟨[i], false⟩ arena = .error fault after) :
    (after.instr i).isResolved = false := by
  obtain ⟨-, stopped⟩ := resolveAll_of_link failed
  rcases error_of_bind stopped with here | ⟨_, _, _, done⟩
  · have marks := marks_of_resolve here
    have stamped := stampEntry_resolves ⟨[i], false⟩ (chain [i] arena)
    have follower : (after.instr i).follower = (arena.instr i).follower :=
      (marks.resolves.follower i).trans (stamped.follower i)
    have branches : (after.instr i).branches = (arena.instr i).branches :=
      (marks.branches i).trans (branches_chained ⟨[i], false⟩ arena i)
    rw [Instruction.isResolved, follower, branches]
    exact fresh
  · cases done

end Listing

/-! ## Constructions that succeed -/

/-- Where all that is reached stands at an address of its own, an edit fails only at an
instruction that is not well formed, which has been claimed by then. -/
theorem Stage.Sound.malformed_of_fails {code : Arena n} {first : Fin n} {last : Stage n}
    {fault : Fault} {after : Draft n} (sound : Sound code first last)
    (apart : ∀ i j, code.Reaches first i → code.Reaches first j →
      (code.instr i).address = (code.instr j).address → i = j)
    (fails : Fails code last fault after) :
    ∃ draft b i links defect, last = ⟨draft, some (b, i), links⟩ ∧
      draft.arena.owner i = none ∧ code.Reaches first i ∧
      (code.instr i).exits = .error defect ∧ fault = (code.instr i).fault defect ∧
      after = draft.claim b i := by
  cases fails with
  | @malformed draft b i links defect vacant found =>
      have reached := (sound.agenda.growing b i rfl).2
      exact ⟨draft, b, i, links, defect, rfl, vacant, reached, found, rfl, rfl⟩
  | @collision draft made p d kind links fault vacant collides =>
      exfalso
      -- The block in the way starts with the instruction, which has no block.
      obtain ⟨c, member, address⟩ := Draft.taken_of_create collides
      obtain ⟨i, head, here, -⟩ := sound.runs.starts c member
      rw [body_idle] at head
      have listed := List.mem_of_mem_head? head
      obtain ⟨owned, reached⟩ := sound.ownership.listed c member i listed
      have goal := (sound.agenda.links _ List.mem_cons_self).2
      have same := apart i d reached goal (here.trans address)
      rw [same] at owned
      exact Option.some_ne_none c (owned.symm.trans vacant)

namespace Graph

variable {code after : Arena n} {first : Fin n} {rest : List (Fin n)} {graph : Graph}

/-- A construction succeeds where all that is reached has no block, is well formed, and
stands at an address of its own. -/
theorem construct_ok (free : ∀ i ∈ first :: rest, code.owner i = none)
    (unowned : ∀ i, code.Reaches first i → code.owner i = none)
    (apart : ∀ i j, code.Reaches first i → code.Reaches first j →
      (code.instr i).address = (code.instr j).address → i = j)
    (leads : ∀ i, code.Reaches first i → ∃ edges, (code.instr i).Leads edges) :
    ∃ graph after, construct (first :: rest) code = .ok graph after := by
  cases ran : construct (first :: rest) code with
  | ok graph after => exact ⟨graph, after, rfl⟩
  | error fault after =>
      exfalso
      obtain ⟨last, draft, steps, fails, -⟩ := fails_of_construct free ran
      have sound := Stage.sound_of_steps unowned steps
      obtain ⟨-, -, i, -, defect, -, -, reached, found, -⟩ := sound.malformed_of_fails apart fails
      obtain ⟨edges, leads⟩ := leads i reached
      rw [leads.exits] at found
      cases found

end Graph

/-- All that a finished graph reaches is well formed. -/
theorem Arena.Built.leads_of_reaches {code after : Arena n} {first i : Fin n} {graph : Graph}
    (built : code.Built first graph after) (reached : code.Reaches first i) :
    ∃ edges, (code.instr i).Leads edges := by
  obtain ⟨b, member, listed⟩ := built.listed_of_reaches reached
  rcases built.next_or_last member listed with ⟨j, -, continues⟩ | ends
  · exact ⟨_, .step continues.goesOn continues.follower⟩
  · obtain ⟨last, edges, found, leads, -⟩ := built.edges b member
    rw [ends] at found
    cases found
    exact ⟨edges, leads⟩

/-! ## Analyses that fail -/

section Analyses

variable {arena after : Arena n} {instrs : List (Fin n)} {options : Options}

/-- An analysis of no instruction, or of one that has a block, is refused. -/
theorem analyse_of_owned (options : Options)
    (owned : instrs ≠ [] → ∃ i ∈ instrs, arena.owner i ≠ none) :
    ∃ fault after, analyse instrs options arena = .error fault after := by
  cases ran : analyse instrs options arena with
  | error fault after => exact ⟨fault, after, rfl⟩
  | ok result after =>
      exfalso
      obtain ⟨listing, linked, code, built, listed, links, constructed, -⟩ := analyse_of_ok ran
      have items : linked.items = instrs := by
        rw [Listing.items_of_link links, (Listing.ofList_eq_ok_iff.mp listed).2]
      rw [items] at constructed
      have given : instrs ≠ [] := by
        rintro rfl
        cases constructed
      obtain ⟨i, member, taken⟩ := owned given
      apply taken
      rw [← (Listing.kept_of_link links i).2]
      exact Graph.free_of_construct constructed i member

/-- An analysis that fails has done nothing, or has stopped linking, or leaves an instruction
with a block. -/
theorem analyse_of_error {fault : Fault}
    (failed : analyse instrs options arena = .error fault after) :
    (∃ fault, Listing.ofList arena instrs = .error fault ∧ after = arena) ∨
    (∃ listing fault, Listing.ofList arena instrs = .ok listing ∧
      listing.link arena = .error fault after) ∨
    (instrs ≠ [] → ∃ i ∈ instrs, after.owner i ≠ none) := by
  unfold analyse at failed
  split at failed
  next fault unlisted => cases failed; exact .inl ⟨fault, unlisted, rfl⟩
  next listing listed =>
    refine .inr ?_
    split at failed
    next => cases failed
    next aborted =>
      cases failed
      rcases error_of_bind aborted with unlinked | ⟨_, linked, links, aborted⟩
      · exact .inl ⟨listing, _, listed, Script.link_of_error unlinked⟩
      refine .inr fun given => ?_
      have items : linked.listing.items = instrs := by
        rw [Listing.items_of_link (Script.link_of_ok links), (Listing.ofList_eq_ok_iff.mp listed).2]
      rcases error_of_bind aborted with read | ⟨_, _, ⟨⟩, aborted⟩
      · cases read
      rw [items] at aborted
      obtain ⟨i, member, owned⟩ := Graph.owned_of_construct linked.arena given
      refine ⟨i, member, ?_⟩
      rcases error_of_bind aborted with refused | ⟨graph, built, ran, aborted⟩
      · rwa [Script.onArena_of_error refused] at owned
      · rw [Script.onArena_of_ok ran] at owned
        obtain ⟨b, taken⟩ := Option.ne_none_iff_exists'.mp owned
        have upholds : built.Upholds _ := (Script.upholds_passes options graph).of_error aborted
        exact Option.ne_none_iff_exists'.mpr ⟨b, upholds.owner i b taken⟩

/-- An analysis succeeds where linking and construction do, and the graph is consistent. -/
theorem analyse_ok {listing linked : Listing n} {code built : Arena n} {graph : Graph}
    (options : Options) (listed : Listing.ofList arena instrs = .ok listing)
    (links : listing.link arena = .ok linked code)
    (constructed : Graph.construct linked.items code = .ok graph built)
    (sound : built.Consistent graph.members) :
    ∃ result after, analyse instrs options arena = .ok result after := by
  obtain ⟨dead, tagged, tags, verifies⟩ := Script.passes_ok options sound
  have analysed := Script.analyse_of_tagged links constructed tags verifies
  rw [analyse_of_listed listed, analysed]
  exact ⟨_, _, rfl⟩

end Analyses

/-! ## The second attempt -/

/-- Linking a sequence of several instructions without blocks stops, and what it leaves makes
a graph. -/
structure Arena.SlipsThrough (arena : Arena n) (instrs : List (Fin n)) (after : Arena n) :
    Prop where
  stopped : ∃ listing fault, Listing.ofList arena instrs = .ok listing ∧
    listing.link arena = .error fault after
  several : 2 ≤ instrs.length
  free : ∀ i ∈ instrs, arena.owner i = none
  leads : ∀ first ∈ instrs.head?, ∀ i, after.Reaches first i →
    ∃ edges, (after.instr i).Leads edges

section Stopped

variable {arena after : Arena n} {instrs : List (Fin n)} {listing : Listing n} {fault : Fault}
  (stopped : listing.link arena = .error fault after)

include stopped

/-- Linking that stops changes followers, kinds and branches at most. -/
theorem instr_of_stopped (i : Fin n) : ∃ follower kind branches,
    after.instr i = { arena.instr i with follower, kind, branches } :=
  Listing.instr_of_resolves
    ((Listing.sustains_resolveAll _).of_error (Listing.resolveAll_of_link stopped).2).resolves i

theorem owner_of_stopped (i : Fin n) : after.owner i = arena.owner i := by
  obtain ⟨follower, kind, branches, same⟩ := instr_of_stopped stopped i
  rw [Arena.owner, same, Arena.owner]

variable (listed : Listing.ofList arena instrs = .ok listing)

include listed

theorem items_of_stopped : listing = ⟨instrs, false⟩ ∧
    ∀ i ∈ instrs, (arena.instr i).isResolved = false := by
  obtain ⟨-, rfl⟩ := Listing.ofList_eq_ok_iff.mp listed
  have unlinked := (Listing.resolveAll_of_link stopped).1
  dsimp only at unlinked
  refine ⟨by rw [unlinked], ?_⟩
  simpa using unlinked

/-- A sequence of one instruction stops again. -/
theorem analyse_of_single {i : Fin n} (single : instrs = [i]) (options : Options) :
    ∃ fault last, analyse instrs options after = .error fault last := by
  obtain ⟨rfl, fresh⟩ := items_of_stopped stopped listed
  subst single
  cases ran : analyse [i] options after with
  | error fault last => exact ⟨fault, last, rfl⟩
  | ok result last =>
      exfalso
      obtain ⟨listing, linked, code, built, relisted, links, -⟩ := analyse_of_ok ran
      obtain ⟨-, rfl⟩ := Listing.ofList_eq_ok_iff.mp relisted
      have unresolved := Listing.unresolved_of_stopped (fresh i List.mem_cons_self) stopped
      have complete := (Listing.link_ok_iff relisted (by simpa using unresolved)).mp ⟨_, _, links⟩
      have targets := (Listing.complete_congr (instr_of_stopped stopped)).mp complete
      obtain ⟨_, _, relinks⟩ := (Listing.link_ok_iff listed fresh).mpr targets
      rw [stopped] at relinks
      cases relinks

/-- Several instructions are taken as linked, for they are chained. -/
theorem taken_as_linked (several : 2 ≤ instrs.length) :
    after.Linked instrs ∧ Listing.ofList after instrs = .ok ⟨instrs, true⟩ := by
  obtain ⟨rfl, fresh⟩ := items_of_stopped stopped listed
  have linked := Listing.linked_of_stopped (Listing.ofList_eq_ok_iff.mp listed).1 fresh stopped
  refine ⟨linked, Listing.ofList_eq_ok_iff.mpr ⟨linked.rising, ?_⟩⟩
  match instrs, several with
  | i :: j :: rest, _ =>
      have follower : (after.instr i).follower = some j :=
        (linked.follower i List.mem_cons_self j).mpr ⟨[], rest, rfl⟩
      have resolved : (after.instr i).isResolved = true := by
        rw [Instruction.isResolved, follower]
        rfl
      rw [List.any_cons, resolved]
      rfl

end Stopped

section Again

variable {arena after last : Arena n} {instrs : List (Fin n)} {options again : Options}
  {fault : Fault} {result : Analysis}

theorem slipsThrough_of_ok (failed : analyse instrs options arena = .error fault after)
    (ran : analyse instrs again after = .ok result last) : arena.SlipsThrough instrs after := by
  rcases analyse_of_error failed with ⟨fault, unlisted, rfl⟩ | ⟨listing, fault, listed, stopped⟩ |
    owned
  · obtain ⟨listing, -, -, -, listed, -⟩ := analyse_of_ok ran
    rw [unlisted] at listed
    cases listed
  · have several : 2 ≤ instrs.length := by
      match instrs with
      | [] =>
          obtain ⟨fault, last, refused⟩ := analyse_of_owned again fun given => (given rfl).elim
          rw [refused] at ran
          cases ran
      | [i] =>
          obtain ⟨fault, last, refused⟩ := analyse_of_single stopped listed rfl again
          rw [refused] at ran
          cases ran
      | i :: j :: rest => exact Nat.le_add_left 2 rest.length
    obtain ⟨linked, relisted⟩ := taken_as_linked stopped listed several
    obtain ⟨_, _, _, built, found, links, constructed, -⟩ := analyse_of_ok ran
    rw [relisted] at found
    cases found
    cases links
    have unowned := Graph.free_of_construct constructed
    refine ⟨⟨listing, fault, listed, stopped⟩, several, ?_, ?_⟩
    · intro i member
      rw [← owner_of_stopped stopped i]
      exact unowned i member
    · intro first head i reached
      obtain ⟨rest, rfl⟩ := List.head?_eq_some_iff.mp head
      have inside : ∀ j, after.Reaches first j → after.owner j = none := fun j reached =>
        unowned j (linked.mem_of_reaches List.mem_cons_self reached)
      exact (Graph.built_of_construct unowned inside constructed).leads_of_reaches reached
  · obtain ⟨fault, last, refused⟩ := analyse_of_owned again owned
    rw [refused] at ran
    cases ran

theorem ok_of_slipsThrough (slips : arena.SlipsThrough instrs after) (again : Options) :
    ∃ result last, analyse instrs again after = .ok result last := by
  obtain ⟨⟨listing, fault, listed, stopped⟩, several, free, leads⟩ := slips
  obtain ⟨linked, relisted⟩ := taken_as_linked stopped listed several
  have unowned : ∀ i ∈ instrs, after.owner i = none := fun i member =>
    (owner_of_stopped stopped i).trans (free i member)
  cases instrs with
  | nil => cases several
  | cons first rest =>
      have inside : ∀ i, after.Reaches first i → i ∈ first :: rest := fun i reached =>
        linked.mem_of_reaches List.mem_cons_self reached
      have reached : ∀ i, after.Reaches first i → after.owner i = none := fun i reached =>
        unowned i (inside i reached)
      obtain ⟨graph, built, constructed⟩ := Graph.construct_ok unowned reached
        (fun i j left right => linked.eq_of_address (inside i left) (inside j right))
        (leads first rfl)
      have sound := (Graph.built_of_construct unowned reached constructed).consistent
      exact analyse_ok again relisted rfl constructed sound

/-- **Second attempts.** After an analysis that failed, another one of the same sequence fails
as well, whatever its options, unless linking had stopped and left several instructions
without blocks of which all that are reached are well formed. -/
theorem refused_again_iff (failed : analyse instrs options arena = .error fault after)
    (again : Options) :
    (∃ fault last, analyse instrs again after = .error fault last) ↔
      ¬ arena.SlipsThrough instrs after := by
  constructor
  · intro refused slips
    obtain ⟨fault, last, refused⟩ := refused
    obtain ⟨result, last, ran⟩ := ok_of_slipsThrough slips again
    rw [refused] at ran
    cases ran
  · intro stays
    cases ran : analyse instrs again after with
    | error fault last => exact ⟨fault, last, rfl⟩
    | ok result last => exact (stays (slipsThrough_of_ok failed ran)).elim

end Again

/-- A jump to an address without an instruction, and the instruction after it. -/
def Arena.misled : Arena 2 where
  instrs := #v[
    { address := 0, opcode := .jmp, targets := [64] },
    { address := 6, opcode := .retn }]

theorem refused_again_iff_misled :
    ∃ fault after, analyse [0, 1] {} Arena.misled = .error fault after ∧
      (after.instr 0).follower = some 1 ∧
      ∃ fault last, analyse [0, 1] {} after = .error fault last := by
  have runs : (match analyse [0, 1] {} Arena.misled with
      | .ok .. => false
      | .error _ after => decide ((after.instr 0).follower = some 1 ∧
          (after.instr 0).exits = .error (.branchCount 1 0))) = true := by decide +kernel
  cases ran : analyse [0, 1] {} Arena.misled with
  | ok result after => rw [ran] at runs; cases runs
  | error fault after =>
      simp only [ran, decide_eq_true_eq] at runs
      refine ⟨fault, after, rfl, runs.1, (refused_again_iff ran {}).mpr ?_⟩
      intro slips
      obtain ⟨edges, leads⟩ := slips.leads 0 rfl 0 .refl
      rw [leads.exits] at runs
      cases runs.2

/-- The same two instructions the other way round. -/
def Arena.stray : Arena 2 where
  instrs := #v[
    { address := 0, opcode := .retn },
    { address := 2, opcode := .jmp, targets := [64] }]

/-- The jump is never reached, and the second analysis takes the instructions as linked. -/
theorem accepted_again_stray :
    ∃ fault after result last, analyse [0, 1] {} Arena.stray = .error fault after ∧
      analyse [0, 1] {} after = .ok result last := by
  have runs : (match analyse [0, 1] {} Arena.stray with
      | .ok .. => false
      | .error _ after =>
          match analyse [0, 1] {} after with
          | .ok .. => true
          | .error .. => false) = true := by decide +kernel
  cases ran : analyse [0, 1] {} Arena.stray with
  | ok result after => rw [ran] at runs; cases runs
  | error fault after =>
      cases again : analyse [0, 1] {} after with
      | error fault last => simp [ran, again] at runs
      | ok result last => exact ⟨fault, after, result, last, rfl, again⟩

end ScriptFlow
