import ScriptFlow.Proofs.Consistency
import ScriptFlow.Proofs.Outcome

/-!
# The passes of an analysis

An analysis that succeeds is a run of each of its passes, one after the other
(`analyse_of_ok`); one that fails has stopped in one of them. What a pass leaves is known
in either case: linking that stops halfway has resolved some branches and settled each of
those (`Listing.Settles`), and a construction that is refused has done nothing.
-/

namespace ScriptFlow

variable {n : Nat}

/-! ## Linking -/

/-- Instructions have been marked as used: kinds have changed, and no branches. -/
structure Arena.Marks (before after : Arena n) : Prop where
  resolves : before.Resolves after
  branches : ∀ i, (after.instr i).branches = (before.instr i).branches

instance : Std.Refl (Arena.Marks (n := n)) := ⟨fun arena => ⟨.refl arena, fun _ => rfl⟩⟩

instance : IsTrans (Arena n) Arena.Marks := ⟨fun _ _ _ early late =>
  ⟨early.resolves.trans late.resolves, fun i => (late.branches i).trans (early.branches i)⟩⟩

namespace Listing

/-- Branches have been resolved, and those that were settled still are. -/
structure Settles (listing : Listing n) (before after : Arena n) : Prop where
  resolves : before.Resolves after
  settled : ∀ i, listing.Settled before i → listing.Settled after i

instance (listing : Listing n) : Std.Refl listing.Settles :=
  ⟨fun arena => ⟨.refl arena, fun _ => id⟩⟩

instance (listing : Listing n) : IsTrans (Arena n) listing.Settles :=
  ⟨fun _ _ _ early late => ⟨early.resolves.trans late.resolves,
    fun i settled => late.settled i (early.settled i settled)⟩⟩

variable {listing linked : Listing n} {arena after : Arena n}

theorem marks_stamp (i : Fin n) (kind : Option AddressKind) (arena : Arena n) :
    arena.Marks (stamp i kind arena) :=
  ⟨.stamp i kind arena, fun j => branches_stamp i j kind arena⟩

/-- Looking up targets marks instructions and does nothing else, whether all are found or not. -/
theorem sustains_destinations (instr : Instruction n) (targets : List Address) :
    Sustains Arena.Marks (listing.destinations instr targets) := by
  have lookup : ∀ target, Sustains Arena.Marks (listing.destination instr target) := by
    intro target
    apply sustains_get_bind
    intro before
    cases listing.find? before target with
    | none => exact Std.Refl.refl before
    | some i => exact Std.Refl.refl before
  induction targets with
  | nil => exact sustains_pure []
  | cons target rest ih =>
      refine (lookup target).bind fun i => ?_
      refine (sustains_modify (marks_stamp i _)).bind fun _ => ?_
      exact ih.bind fun others => sustains_pure _

/-- An item whose branches are not resolved has been looked at only. -/
theorem marks_of_resolve {i : Fin n} {fault : Fault}
    (failed : listing.resolve i arena = .error fault after) : arena.Marks after := by
  rcases error_of_bind failed with read | ⟨_, _, ⟨⟩, ran⟩
  · cases read
  · rcases error_of_bind ran with missed | ⟨_, _, _, done⟩
    · exact (sustains_destinations _ _).of_error missed
    · cases done

/-- Resolving an item unsettles none, whether it succeeds or fails. -/
theorem sustains_resolve (i : Fin n) : Sustains listing.Settles (listing.resolve i) := by
  intro before
  cases ran : listing.resolve i before with
  | ok _ after =>
      obtain ⟨resolves, -, kept⟩ := resolve_of_ok ran
      exact ⟨resolves, kept⟩
  | error fault after =>
      have marks := marks_of_resolve ran
      exact ⟨marks.resolves, fun j settled => settled.resolves marks.resolves (marks.branches j)⟩

theorem sustains_resolveAll (items : List (Fin n)) :
    Sustains listing.Settles (listing.resolveAll items) := by
  induction items with
  | nil => exact sustains_pure ()
  | cons i rest ih => exact (sustains_resolve i).bind fun _ => ih

/-- Linking keeps the items of a listing. -/
theorem items_of_link (ran : listing.link arena = .ok linked after) :
    linked.items = listing.items := by
  cases state : listing.linked with
  | true =>
      rw [link, if_pos state] at ran
      cases ran
      rfl
  | false => rw [(link_of_ok state ran).1]

end Listing

/-! ## Construction -/

/-- The first instruction that a construction claims is its entry. -/
theorem Stage.entered_of_steps {code : Arena n} {first : Fin n} {stage : Stage n}
    (steps : Steps code (initial code first) stage) :
    stage.draft.arena.owner first ≠ none ∨ ∃ b, stage.growing = some (b, first) := by
  induction steps with
  | refl => exact .inr ⟨_, rfl⟩
  | tail _ step ih =>
      have claimed : ∀ (draft : Draft n) (b : BlockId) (i : Fin n),
          (draft.arena.owner first ≠ none ∨ ∃ c, some (b, i) = some (c, first)) →
          (draft.claim b i).arena.owner first ≠ none := by
        rintro draft b i (owned | ⟨c, ⟨⟩⟩)
        · exact owned_claim b i owned
        · rw [Draft.arena_claim, Arena.owner_claim_self]
          exact Option.some_ne_none b
      cases step with
      | extend => exact .inl (claimed _ _ _ ih)
      | close => exact .inl (claimed _ _ _ ih)
      | reuse => exact .inl (ih.resolve_right nofun)
      | create free created =>
          rw [Draft.arena_addChild, Arena.owner_addChild, owner_created created]
          exact .inl (ih.resolve_right nofun)

namespace Graph

variable {instrs rest : List (Fin n)} {first : Fin n} {code after : Arena n} {graph : Graph}

/-- A construction is refused, and does nothing, if any of the instructions has a block. -/
theorem construct_of_owned {i : Fin n} (listed : i ∈ instrs) (owned : code.owner i ≠ none) :
    ∃ j ∈ instrs, code.owner j ≠ none ∧
      construct instrs code = .error (.alreadyOwned (code.instr j).address) code := by
  cases instrs with
  | nil => cases listed
  | cons first rest =>
      cases found : (first :: rest).find? fun j => (code.owner j).isSome with
      | none =>
          rw [List.find?_eq_none] at found
          exact (found i listed (Option.isSome_iff_ne_none.mpr owned)).elim
      | some j =>
          refine ⟨j, List.mem_of_find?_eq_some found, ?_, ?_⟩
          · have holds := List.find?_some found
            exact Option.isSome_iff_ne_none.mp holds
          · rw [construct, found]

/-- A graph is constructed of instructions without a block only. -/
theorem free_of_construct (constructed : construct instrs code = .ok graph after) :
    ∀ i ∈ instrs, code.owner i = none := by
  intro i listed
  by_contra owned
  obtain ⟨j, -, -, refused⟩ := construct_of_owned listed owned
  rw [refused] at constructed
  cases constructed

/-- Once a graph is constructed, the first instruction has a block. -/
theorem entered_of_construct (constructed : construct (first :: rest) code = .ok graph after) :
    after.owner first ≠ none :=
  (Stage.entered_of_steps
    (steps_of_construct (free_of_construct constructed) constructed)).resolve_right nofun

/-- After an attempt to construct a graph of some instructions one of them has a block. -/
theorem owned_of_construct (code : Arena n) (given : instrs ≠ []) :
    ∃ i ∈ instrs, (left (construct instrs code)).owner i ≠ none := by
  cases instrs with
  | nil => exact (given rfl).elim
  | cons first rest =>
      cases ran : construct (first :: rest) code with
      | ok graph after => exact ⟨first, List.mem_cons_self, entered_of_construct ran⟩
      | error fault after =>
          by_cases free : ∀ i ∈ first :: rest, code.owner i = none
          · obtain ⟨last, draft, steps, fails, rfl⟩ := fails_of_construct free ran
            refine ⟨first, List.mem_cons_self, ?_⟩
            have entered := Stage.entered_of_steps steps
            cases fails with
            | @malformed draft b i links defect vacant found =>
                rcases entered with owned | ⟨c, ⟨⟩⟩
                · exact Stage.owned_claim b i owned
                · exact Option.ne_none_iff_exists'.mpr ⟨b, Arena.owner_claim_self ..⟩
            | collision vacant collides =>
                rw [(Draft.create_of_error collides).2]
                exact entered.resolve_right nofun
          · push Not at free
            obtain ⟨i, listed, owned⟩ := free
            obtain ⟨j, member, taken, refused⟩ := construct_of_owned listed owned
            rw [refused] at ran
            cases ran
            exact ⟨j, member, taken⟩

end Graph

/-! ## Analyses -/

/-- An audit that passes changes nothing. -/
theorem Arena.verify_of_ok {blocks : List BlockId} {arena after : Arena n}
    (ran : verify blocks none arena = .ok () after) : after = arena := by
  obtain ⟨_, _, ⟨⟩, ran⟩ := ok_of_bind ran
  cases found : arena.audit blocks none with
  | nil => rw [found] at ran; cases ran; rfl
  | cons problem rest => rw [found] at ran; cases ran

namespace Script

variable {script after : Script n} {options : Options}

theorem link_of_ok (ran : link script = .ok () after) :
    script.listing.link script.arena = .ok after.listing after.arena := by
  unfold link at ran
  split at ran
  next found => cases ran; exact found
  next => cases ran

theorem link_of_error {fault : Fault} (failed : link script = .error fault after) :
    script.listing.link script.arena = .error fault after.arena := by
  unfold link at failed
  split at failed
  next => cases failed
  next found => cases failed; exact found

theorem verify_of_ok {graph : Graph} {arena after : Arena n}
    (ran : verify options graph arena = .ok () after) : after = arena := by
  unfold verify at ran
  split at ran
  next => exact Arena.verify_of_ok ran
  next => cases ran; rfl

/-- An analysis that succeeds has linked the listing, constructed the graph and marked its
edges. -/
theorem analyse_of_ok {result : Analysis} (ran : analyse options script = .ok result after) :
    ∃ linked code built, script.listing.link script.arena = .ok linked code ∧
      Graph.construct linked.items code = .ok result.graph built ∧
      tagDeadEdges options result.graph built = .ok result.deadEdges after.arena := by
  obtain ⟨_, linked, links, ran⟩ := ok_of_bind ran
  obtain ⟨_, _, ⟨⟩, ran⟩ := ok_of_bind ran
  obtain ⟨graph, built, constructs, ran⟩ := ok_of_bind ran
  obtain ⟨dead, tagged, tags, ran⟩ := ok_of_bind ran
  obtain ⟨_, checked, verifies, ran⟩ := ok_of_bind ran
  obtain ⟨_, _, ⟨⟩, ⟨⟩⟩ := ok_of_bind ran
  have same := verify_of_ok (onArena_of_ok verifies)
  refine ⟨_, _, _, link_of_ok links, onArena_of_ok constructs, ?_⟩
  rw [same]
  exact onArena_of_ok tags

section OnArena

variable {α : Type} {action : Action n α} {arena : Arena n}

theorem onArena_ok {value : α} (ran : action script.arena = .ok value arena) :
    onArena action script = .ok value { script with arena } := by
  rw [onArena, ran]

theorem onArena_error {fault : Fault} (failed : action script.arena = .error fault arena) :
    onArena action script = .error fault { script with arena } := by
  rw [onArena, failed]

end OnArena

section Runs

variable {listing linked : Listing n} {arena code built tagged : Arena n} {graph : Graph}
  {dead : List DeadEdge} {fault : Fault}

theorem link_ok (links : listing.link arena = .ok linked code) :
    link { arena, listing } = .ok () { arena := code, listing := linked } := by
  rw [link, links]

/-- An analysis that cannot link stops there. -/
theorem analyse_of_unlinked (failed : listing.link arena = .error fault code) :
    analyse options { arena, listing } = .error fault { arena := code, listing } := by
  have linking : link { arena, listing } = .error fault { arena := code, listing } := by
    rw [link, failed]
  exact bind_of_error linking

variable (links : listing.link arena = .ok linked code)

include links

/-- An analysis that cannot construct a graph stops there. -/
theorem analyse_of_refused (failed : Graph.construct linked.items code = .error fault built) :
    analyse options { arena, listing } = .error fault { arena := built, listing := linked } := by
  refine (bind_of_ok (link_ok links)).trans ?_
  refine Eq.trans (bind_of_ok (by rfl)) ?_
  exact bind_of_error (onArena_error failed)

/-- An analysis all of whose passes succeed. -/
theorem analyse_of_tagged (constructed : Graph.construct linked.items code = .ok graph built)
    (tags : tagDeadEdges options graph built = .ok dead tagged)
    (verifies : verify options graph tagged = .ok () tagged) :
    analyse options { arena, listing } =
      .ok ⟨graph, dead, report { arena := tagged, listing := linked } graph dead⟩
        { arena := tagged, listing := linked } := by
  refine (bind_of_ok (link_ok links)).trans ?_
  refine Eq.trans (bind_of_ok (by rfl)) ?_
  refine (bind_of_ok (onArena_ok constructed)).trans ?_
  refine (bind_of_ok (onArena_ok tags)).trans ?_
  exact bind_of_ok (onArena_ok verifies)

end Runs

/-- What a run on a script comes to on its arena. -/
def outcome {α : Type} :
    EStateM.Result Fault (Script n) α → EStateM.Result Fault (Arena n) α
  | .ok value script => .ok value script.arena
  | .error fault script => .error fault script.arena

end Script

/-- A sequence that forms a listing is analysed as a script with that listing. -/
theorem analyse_of_listed {instrs : List (Fin n)} {options : Options} {arena : Arena n}
    {listing : Listing n} (listed : Listing.ofList arena instrs = .ok listing) :
    analyse instrs options arena =
      Script.outcome (Script.analyse options { arena, listing }) := by
  unfold analyse Script.outcome
  rw [listed]
  dsimp only
  cases Script.analyse options { arena, listing } with
  | ok => rfl
  | error => rfl

/-- A sequence that forms no listing is refused before anything is done. -/
theorem analyse_of_unlisted {instrs : List (Fin n)} {options : Options} {arena : Arena n}
    {fault : Fault} (unlisted : Listing.ofList arena instrs = .error fault) :
    analyse instrs options arena = .error fault arena := by
  unfold analyse
  rw [unlisted]

theorem analyse_of_ok {instrs : List (Fin n)} {options : Options} {result : Analysis}
    {arena after : Arena n} (ran : analyse instrs options arena = .ok result after) :
    ∃ listing linked code built, Listing.ofList arena instrs = .ok listing ∧
      listing.link arena = .ok linked code ∧
      Graph.construct linked.items code = .ok result.graph built ∧
      Script.tagDeadEdges options result.graph built = .ok result.deadEdges after := by
  unfold analyse at ran
  split at ran
  next => cases ran
  next listing listed =>
    split at ran
    next found =>
      cases ran
      obtain ⟨linked, code, built, passes⟩ := Script.analyse_of_ok found
      exact ⟨listing, linked, code, built, listed, passes⟩
    next => cases ran

end ScriptFlow
