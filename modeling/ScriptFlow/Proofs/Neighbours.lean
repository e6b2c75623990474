import ScriptFlow.Proofs.Incoming
import ScriptFlow.Proofs.Walks

/-!
# Neighbours without subroutines

The lists of children and parents that leave calls out ask for the kind of an edge by the
block it leads to, and so for the kind of the first edge there is. Every edge has a kind of
its own. In a graph that is returned a block has two edges at most, of different kinds, and
only the first can be a call (`Arena.Fans`). So the two questions differ in one case, the
call of the code that comes next (`Arena.CallsTwice`): it is left towards one block by a call
and by the return from it, and the second edge is left out with the first.

That block stands later, so `earlierChildren` and `laterParents` never meet the case.
`Graph.Returned.neighbours` says this of each of the lists.
-/

namespace ScriptFlow

variable {n : Nat}

namespace Arena

/-! ## Edges one by one -/

/-- The edges of a block: where each leads, and its kind. -/
def edges (arena : Arena n) (b : BlockId) : List (BlockId × EdgeKind) :=
  (arena.block b).children.zip (arena.block b).kinds

/-- The children for which `among` holds of their address, one for each edge that is no
call itself. -/
def ownChildren (arena : Arena n) (b : BlockId) (among : Address → Bool) : List BlockId :=
  ((arena.edges b).filter fun edge =>
    !edge.2.isSubroutineCall && among (arena.address edge.1)).map (·.1)

/-- The number of edges from `p` to `b` that are no calls. -/
def ownEdges (arena : Arena n) (p b : BlockId) : Nat :=
  (arena.edges p).countP fun edge => !edge.2.isSubroutineCall && edge.1 = b

/-- Looking an edge up by its end finds its own kind. -/
def LooksUp (arena : Arena n) (b : BlockId) : Prop :=
  ∀ (slot : Nat) (child : BlockId), (arena.block b).children[slot]? = some child →
    ∃ kind, (arena.block b).kinds[slot]? = some kind ∧ arena.edgeKind b child = .ok kind

/-- The list has each parent for which `among` holds once for each edge that is no call. -/
structure KeepsParents (arena : Arena n) (blocks : List BlockId) (b : BlockId)
    (among : Address → Bool) (found : List BlockId) : Prop where
  sublist : found.Sublist (arena.block b).parents
  count : ∀ p ∈ blocks,
    found.count p = if among (arena.address p) then arena.ownEdges p b else 0

/-- The block calls the code that its call comes back to. -/
def CallsTwice (arena : Arena n) (b c : BlockId) : Prop :=
  (arena.block b).children = [c, c] ∧
    ∃ kind ∈ (arena.block b).kinds.head?, kind.isSubroutineCall = true

/-- The first edge from `p` to `b` is no call. -/
def firstOwn (arena : Arena n) (p b : BlockId) : Bool :=
  ((arena.childIndex? p b).bind fun index => (arena.block p).kinds[index]?).any
    (!·.isSubroutineCall)

/-- The children for which `among` holds of their address, each judged by the first edge to
it. -/
def keptChildren (arena : Arena n) (b : BlockId) (among : Address → Bool)
    (subroutines : Bool) : List BlockId :=
  (arena.block b).children.filter fun c =>
    (subroutines || arena.firstOwn b c) && among (arena.address c)

/-- The parents for which `among` holds of their address, each judged by its first edge to
the block. -/
def keptParents (arena : Arena n) (b : BlockId) (among : Address → Bool)
    (subroutines : Bool) : List BlockId :=
  (arena.block b).parents.filter fun p =>
    (subroutines || arena.firstOwn p b) && among (arena.address p)

/-- The edges of a block in a graph that is returned. -/
inductive Fans (arena : Arena n) (b : BlockId) : Prop
  | stop :
    (arena.block b).children = [] → (arena.block b).kinds = [] → Fans arena b
  | single {c : BlockId} {kind : EdgeKind} :
    (arena.block b).children = [c] → (arena.block b).kinds = [kind] →
    kind.isSubroutineCall = false → Fans arena b
  | double {c d : BlockId} {kind other : EdgeKind} :
    (arena.block b).children = [c, d] → (arena.block b).kinds = [kind, other] →
    kind ≠ other → other.isSubroutineCall = false →
    (kind.isSubroutineCall = true → arena.address b < arena.address d) → Fans arena b

/-- Where every question has an answer, the selection is a filter. -/
theorem keepEach_eq_filter {keep : BlockId → Except Fault Bool} {own : BlockId → Bool}
    {entries : List BlockId} (known : ∀ b ∈ entries, keep b = .ok (own b)) :
    keepEach keep entries = .ok (entries.filter own) := by
  induction entries with
  | nil => rfl
  | cons b rest ih =>
      rw [List.forall_mem_cons] at known
      rw [keepEach, known.1, ih known.2, List.filter_cons]
      rfl

/-- An entry is counted among those that are kept if it is kept itself. -/
theorem count_filter_eq (keep : BlockId → Bool) (entries : List BlockId) (b : BlockId) :
    (entries.filter keep).count b = if keep b then entries.count b else 0 := by
  cases kept : keep b with
  | true => exact List.count_filter kept
  | false =>
      apply List.count_eq_zero.mpr
      intro listed
      rw [List.of_mem_filter listed] at kept
      cases kept

/-- A child is judged by the first edge to it. -/
theorem isSubroutineChild_eq {arena : Arena n} {p b : BlockId}
    (kinds : (arena.block p).children.length = (arena.block p).kinds.length)
    (child : b ∈ (arena.block p).children) :
    (arena.isSubroutineChild p b).map (!·) = .ok (arena.firstOwn p b) := by
  obtain ⟨index, kind, place, there, answer⟩ := isSubroutineChild_of_mem kinds child
  rw [answer, firstOwn, place, Option.bind_some, there]
  rfl

section Select

variable {arena : Arena n} {b : BlockId} (among : Address → Bool) (subroutines : Bool)

/-- The children selected are the ones that the first edges to them let through. -/
theorem selectChildren_eq_ok
    (kinds : (arena.block b).children.length = (arena.block b).kinds.length) :
    arena.selectChildren b among subroutines = .ok (arena.keptChildren b among subroutines) := by
  have each : ∀ c ∈ (arena.block b).children.filter fun c => among (arena.address c),
      (if subroutines then .ok true else (arena.isSubroutineChild b c).map (!·)) =
        .ok (subroutines || arena.firstOwn b c) := by
    intro c listed
    cases subroutines with
    | true => rfl
    | false => exact isSubroutineChild_eq kinds (List.mem_of_mem_filter listed)
  rw [selectChildren, keepEach_eq_filter each, List.filter_filter, keptChildren]

/-- The parents selected are the ones that their first edges to the block let through. -/
theorem selectParents_eq_ok (known : ∀ p ∈ (arena.block b).parents,
      (arena.block p).children.length = (arena.block p).kinds.length ∧
        b ∈ (arena.block p).children) :
    arena.selectParents b among subroutines = .ok (arena.keptParents b among subroutines) := by
  have each : ∀ p ∈ (arena.block b).parents.filter fun p => among (arena.address p),
      (if subroutines then .ok true else (arena.isSubroutineChild p b).map (!·)) =
        .ok (subroutines || arena.firstOwn p b) := by
    intro p listed
    obtain ⟨kinds, child⟩ := known p (List.mem_of_mem_filter listed)
    cases subroutines with
    | true => rfl
    | false => exact isSubroutineChild_eq kinds child
  rw [selectParents, keepEach_eq_filter each, List.filter_filter, keptParents]

end Select

section Lookup

variable {arena : Arena n} {b c d : BlockId} {kind other : EdgeKind}
  {children : List BlockId} {kinds : List EdgeKind}

/-- The first edge is found by its end. -/
theorem edgeKind_head (leads : (arena.block b).children = c :: children)
    (tells : (arena.block b).kinds = kind :: kinds) : arena.edgeKind b c = .ok kind := by
  have place : arena.childIndex? b c = some 0 := by
    rw [childIndex?, leads, List.idxOf?_cons, beq_self_eq_true]
    rfl
  rw [edgeKind, place, tells]
  rfl

/-- The second one is found if it leads elsewhere than the first. -/
theorem edgeKind_second (leads : (arena.block b).children = [c, d])
    (tells : (arena.block b).kinds = [kind, other]) (apart : c ≠ d) :
    arena.edgeKind b d = .ok other := by
  have place : arena.childIndex? b d = some 1 := by
    simp [childIndex?, leads, List.idxOf?_cons, apart]
  rw [edgeKind, place, tells]
  rfl

theorem firstOwn_of_edgeKind (found : arena.edgeKind b c = .ok kind) :
    arena.firstOwn b c = !kind.isSubroutineCall := by
  unfold edgeKind at found
  split at found
  next => cases found
  next index place =>
    split at found
    next => cases found
    next there =>
      cases found
      rw [firstOwn, place, Option.bind_some, there]
      rfl

end Lookup

/-! ## The edges of one block -/

section Fans

variable {arena : Arena n} {b c : BlockId} (fans : arena.Fans b)

include fans

theorem Fans.length_eq : (arena.block b).children.length = (arena.block b).kinds.length := by
  cases fans with
  | stop children kinds => rw [children, kinds]; rfl
  | single children kinds => rw [children, kinds]; rfl
  | double children kinds => rw [children, kinds]; rfl

theorem Fans.children_eq : (arena.block b).children = (arena.edges b).map (·.1) :=
  (List.map_fst_zip (Nat.le_of_eq fans.length_eq)).symm

/-- Every edge is found by its end just if no two lead to one block. -/
theorem Fans.looksUp_iff : arena.LooksUp b ↔ (arena.block b).children.Nodup := by
  cases fans with
  | stop children kinds => simp [LooksUp, children]
  | @single c kind children kinds =>
      refine ⟨fun _ => children ▸ List.nodup_singleton c, ?_⟩
      intro _ slot child here
      rw [children] at here
      match slot with
      | 0 => cases here; exact ⟨kind, by rw [kinds]; rfl, edgeKind_head children kinds⟩
      | _ + 1 => cases here
  | @double c d kind other children kinds differ =>
      have first := edgeKind_head children kinds
      rw [children]
      constructor
      · intro looksUp
        obtain ⟨found, there, answer⟩ := looksUp 1 d (by rw [children]; rfl)
        rw [kinds] at there
        cases there
        have apart : c ≠ d := by
          rintro rfl
          rw [first] at answer
          exact differ (Except.ok.inj answer)
        simpa using apart
      · intro single slot child here
        have apart : c ≠ d := by simpa using single
        rw [children] at here
        match slot with
        | 0 => cases here; exact ⟨kind, by rw [kinds]; rfl, first⟩
        | 1 =>
            cases here
            exact ⟨other, by rw [kinds]; rfl, edgeKind_second children kinds apart⟩
        | _ + 2 => cases here

/-- A block that calls what comes next has an edge to it that is no call, but finds the
other one. -/
theorem Fans.of_callsTwice (twice : arena.CallsTwice b c) :
    arena.firstOwn b c = false ∧ arena.address b < arena.address c ∧
      ∃ kind other, arena.edges b = [(c, kind), (c, other)] ∧
        kind.isSubroutineCall = true ∧ other.isSubroutineCall = false := by
  obtain ⟨both, call, head, calls⟩ := twice
  cases fans with
  | stop children => rw [children] at both; cases both
  | single children => rw [children] at both; cases both
  | @double c d kind other children kinds differ own later =>
      rw [children] at both
      rw [kinds] at head
      cases both
      cases head
      have first := firstOwn_of_edgeKind (edgeKind_head children kinds)
      rw [calls] at first
      refine ⟨first, later calls, call, other, ?_, calls, own⟩
      rw [edges, children, kinds]
      rfl

/-- Otherwise the first edge to a block is a call just if every edge to it is. -/
theorem Fans.firstOwn_of_mem {edge : BlockId × EdgeKind} (listed : edge ∈ arena.edges b)
    (once : ¬ arena.CallsTwice b edge.1) :
    arena.firstOwn b edge.1 = !edge.2.isSubroutineCall := by
  cases fans with
  | stop children kinds => rw [edges, children] at listed; cases listed
  | single children kinds =>
      rw [edges, children, kinds] at listed
      obtain rfl := List.mem_singleton.mp listed
      exact firstOwn_of_edgeKind (edgeKind_head children kinds)
  | @double c d kind other children kinds differ own =>
      have first := firstOwn_of_edgeKind (edgeKind_head children kinds)
      rw [edges, children, kinds] at listed
      rcases List.mem_pair.mp listed with rfl | rfl
      · exact first
      · by_cases same : c = d
        · subst same
          cases calls : kind.isSubroutineCall with
          | true => exact (once ⟨children, kind, by rw [kinds]; rfl, calls⟩).elim
          | false => rw [first, calls, own]
        · exact firstOwn_of_edgeKind (edgeKind_second children kinds same)

theorem Fans.selectChildren_eq (among : Address → Bool) :
    arena.selectChildren b among false = .ok (((arena.edges b).filter fun edge =>
      arena.firstOwn b edge.1 && among (arena.address edge.1)).map (·.1)) := by
  rw [selectChildren_eq_ok among false fans.length_eq, keptChildren, fans.children_eq,
    List.filter_map]
  rfl

/-- The children kept are those of the edges that are no calls, unless a call is left out
with the way back. -/
theorem Fans.selectChildren_iff {among : Address → Bool} :
    arena.selectChildren b among false = .ok (arena.ownChildren b among) ↔
      ∀ c, arena.CallsTwice b c → among (arena.address c) = false := by
  rw [fans.selectChildren_eq, Except.ok.injEq, ownChildren]
  constructor
  · intro same c twice
    obtain ⟨first, -, kind, other, two, calls, own⟩ := fans.of_callsTwice twice
    rw [two] at same
    cases reads : among (arena.address c) with
    | false => rfl
    | true => simp [first, calls, own, reads] at same
  · intro leaves
    congr 1
    apply List.filter_congr
    intro edge listed
    by_cases twice : arena.CallsTwice b edge.1
    · rw [leaves _ twice, Bool.and_false, Bool.and_false]
    · rw [fans.firstOwn_of_mem listed twice]

/-- The first edge to a child speaks for all of them, unless the block calls what its call comes
back to. -/
theorem Fans.ownEdges_iff :
    (if arena.firstOwn b c then (arena.block b).children.count c else 0) =
      arena.ownEdges b c ↔ ¬ arena.CallsTwice b c := by
  constructor
  · intro same twice
    obtain ⟨first, -, kind, other, two, calls, own⟩ := fans.of_callsTwice twice
    rw [first, ownEdges, two] at same
    simp [calls, own] at same
  · intro once
    have counted : arena.ownEdges b c =
        (arena.edges b).countP fun edge => arena.firstOwn b c && edge.1 = c := by
      apply List.countP_congr
      intro edge listed
      by_cases here : edge.1 = c
      · rw [← here] at once
        rw [← fans.firstOwn_of_mem listed once, here]
      · simp [here]
    rw [counted, fans.children_eq]
    cases arena.firstOwn b c with
    | true => simp [List.count, List.countP_map, Function.comp_def, beq_eq_decide]
    | false => simp

end Fans

/-! ## The edges into one block -/

/-- The blocks have the edges of a graph that is returned, each recorded at both ends. -/
structure FannedOut (arena : Arena n) (blocks : List BlockId) : Prop where
  closed : arena.Closed blocks
  paired : ∀ p ∈ blocks, ∀ b ∈ blocks,
    (arena.block p).children.count b = (arena.block b).parents.count p
  fans : ∀ b ∈ blocks, arena.Fans b

section Parents

variable {arena : Arena n} {blocks : List BlockId} {b : BlockId}
  (fanned : arena.FannedOut blocks) (member : b ∈ blocks)

include fanned member

theorem FannedOut.selectParents_eq (among : Address → Bool) :
    arena.selectParents b among false = .ok ((arena.block b).parents.filter fun p =>
      arena.firstOwn p b && among (arena.address p)) := by
  apply selectParents_eq_ok among false
  intro p listed
  obtain ⟨known, child⟩ := fanned.closed.parents b member p listed
  exact ⟨fanned.closed.kinds p known, child⟩

/-- The parents kept are those of the edges that are no calls, unless one calls what comes
next. -/
theorem FannedOut.selectParents_iff (among : Address → Bool) :
    ∃ found, arena.selectParents b among false = .ok found ∧
      (arena.KeepsParents blocks b among found ↔
        ∀ p ∈ blocks, among (arena.address p) = true → ¬ arena.CallsTwice p b) := by
  refine ⟨_, fanned.selectParents_eq member among, ?_⟩
  have count : ∀ p ∈ blocks, ((arena.block b).parents.filter fun q =>
      arena.firstOwn q b && among (arena.address q)).count p =
        if among (arena.address p) then
          if arena.firstOwn p b then (arena.block p).children.count b else 0
        else 0 := by
    intro p known
    rw [count_filter_eq, fanned.paired p known b member]
    cases among (arena.address p) <;> cases arena.firstOwn p b <;> rfl
  constructor
  · intro keeps p known reads
    have same := keeps.count p known
    rw [count p known, if_pos reads, if_pos reads] at same
    exact (fanned.fans p known).ownEdges_iff.mp same
  · intro once
    refine ⟨List.filter_sublist, fun p known => ?_⟩
    rw [count p known]
    split
    next reads => exact (fanned.fans p known).ownEdges_iff.mpr (once p known reads)
    next => rfl

end Parents

/-! ## Built graphs -/

namespace Built

variable {code built after : Arena n} {items : List (Fin n)} {first i : Fin n} {graph : Graph}
  {b : BlockId}

/-- In a graph of linked code the edges of a block are those of its last instruction. -/
theorem fans (made : code.Built first graph built) (linked : code.Linked items)
    (entry : first ∈ items) (member : b ∈ graph.members) : built.Fans b := by
  obtain ⟨last, edges, ends, leads, kinds, children⟩ := made.edges_start linked entry member
  have listed : last ∈ (built.block b).instrs := List.mem_of_getLast? ends
  -- A call comes back to the instruction after it, with which the second child starts.
  have later : ∀ (d : BlockId) (next : Fin n), d ∈ graph.members →
      (built.block d).instrs.head? = some next → (code.instr last).follower = some next →
      built.address b < built.address d := by
    intro d next known head follower
    obtain ⟨start, starts, address, -⟩ := made.starts d known
    rw [head] at starts
    cases starts
    have inside := made.mem_items linked entry member listed
    have below := linked.address_lt ((linked.follower last inside next).mp follower)
    have low := made.address_le linked entry member listed
    exact address ▸ Int.lt_of_le_of_lt low below
  cases leads with
  | jump =>
      obtain ⟨c, rest, -, done, leads⟩ := List.forall₂_cons_right_iff.mp children
      obtain rfl := List.forall₂_nil_right_iff.mp done
      exact .single leads kinds rfl
  | test =>
      obtain ⟨c, rest, -, more, leads⟩ := List.forall₂_cons_right_iff.mp children
      obtain ⟨d, rest, -, done, rfl⟩ := List.forall₂_cons_right_iff.mp more
      obtain rfl := List.forall₂_nil_right_iff.mp done
      exact .double leads kinds nofun rfl nofun
  | call operation branches follower =>
      obtain ⟨c, rest, -, more, leads⟩ := List.forall₂_cons_right_iff.mp children
      obtain ⟨d, rest, ⟨known, -, head⟩, done, rfl⟩ := List.forall₂_cons_right_iff.mp more
      obtain rfl := List.forall₂_nil_right_iff.mp done
      exact .double leads kinds nofun rfl fun _ => later d _ known head follower
  | store operation branches follower =>
      obtain ⟨c, rest, -, more, leads⟩ := List.forall₂_cons_right_iff.mp children
      obtain ⟨d, rest, ⟨known, -, head⟩, done, rfl⟩ := List.forall₂_cons_right_iff.mp more
      obtain rfl := List.forall₂_nil_right_iff.mp done
      exact .double leads kinds nofun rfl fun _ => later d _ known head follower
  | finish => exact .stop (List.forall₂_nil_right_iff.mp children) kinds
  | step =>
      obtain ⟨c, rest, -, done, leads⟩ := List.forall₂_cons_right_iff.mp children
      obtain rfl := List.forall₂_nil_right_iff.mp done
      exact .single leads kinds rfl
  | stop => exact .stop (List.forall₂_nil_right_iff.mp children) kinds

/-- Marking dead edges leaves it at two kinds that differ. -/
theorem fans_retags (made : code.Built first graph built) (member : b ∈ graph.members)
    (retags : built.Retags after)
    (kinds : (after.block b).kinds = (built.block b).kinds ∨
      (after.block b).kinds = built.markedKinds b) (fans : built.Fans b) : after.Fans b := by
  have same : (after.block b).kinds = (built.block b).kinds → after.Fans b := by
    intro same
    cases fans with
    | stop children kinds =>
        exact .stop (by rw [retags.children, children]) (same.trans kinds)
    | single children kinds own =>
        exact .single ((retags.children b).trans children) (same.trans kinds) own
    | double children kinds differ own later =>
        refine .double ((retags.children b).trans children) (same.trans kinds) differ own ?_
        rwa [retags.address, retags.address]
  rcases kinds with kept | marked
  · exact same kept
  rcases made.markedKinds_cases member with plain | ⟨retests, -, first | second⟩
  · exact same (marked.trans plain)
  · obtain ⟨c, d, children⟩ := List.length_eq_two.mp (length_children_of_jumper retests.jumper)
    exact .double ((retags.children b).trans children) (marked.trans first) nofun rfl nofun
  · obtain ⟨c, d, children⟩ := List.length_eq_two.mp (length_children_of_jumper retests.jumper)
    exact .double ((retags.children b).trans children) (marked.trans second) nofun rfl nofun

theorem fannedOut (made : code.Built first graph built) (retags : built.Retags after)
    (fans : ∀ b ∈ graph.members, after.Fans b) : after.FannedOut graph.members := by
  refine ⟨made.closed.retags retags, ?_, fans⟩
  intro p left b right
  rw [retags.children, retags.parents]
  exact made.linkage.paired p left b right

end Built

end Arena

/-! ## Graphs that are returned -/

/-- Before linking, an instruction leads nowhere. -/
theorem Instruction.IsFresh.successors {instr : Instruction n} (fresh : instr.IsFresh) :
    instr.successors = [] := by
  obtain ⟨-, follower, branches⟩ := fresh
  unfold Instruction.successors
  rw [follower, branches]
  cases instr.opcode <;> rfl

/-- A graph that is constructed of the instructions as they are or once they are linked, or
that an analysis of them returns. -/
inductive Graph.Returned (arena : Arena n) (instrs : List (Fin n)) : Graph → Arena n → Prop
  | unlinked {graph : Graph} {built : Arena n} :
    construct instrs arena = .ok graph built → Returned arena instrs graph built
  | linked {listing linked : Listing n} {code built : Arena n} {graph : Graph} :
    Listing.ofList arena instrs = .ok listing → listing.link arena = .ok linked code →
    construct linked.items code = .ok graph built → Returned arena instrs graph built
  | analysed {options : Options} {result : Analysis} {after : Arena n} :
    analyse instrs options arena = .ok result after → Returned arena instrs result.graph after

namespace Graph

variable {arena after : Arena n} {instrs : List (Fin n)} {graph : Graph}
  (fresh : ∀ i ∈ instrs, (arena.instr i).IsFresh)

include fresh

theorem fannedOut_of_unlinked (constructed : construct instrs arena = .ok graph after) :
    after.FannedOut graph.members := by
  cases instrs with
  | nil => cases constructed
  | cons first rest =>
      have alone : ∀ i, arena.Reaches first i → i = first := by
        intro i reached
        induction reached with
        | refl => rfl
        | tail _ flows ih =>
            rw [ih, Arena.Flows, (fresh first List.mem_cons_self).successors] at flows
            cases flows
      have free : ∀ i ∈ first :: rest, arena.owner i = none := fun i listed => (fresh i listed).1
      have made := built_of_construct free
        (fun i reached => free i (alone i reached ▸ List.mem_cons_self)) constructed
      refine made.fannedOut (.refl after) ?_
      intro b member
      obtain ⟨last, edges, ends, leads, kinds, children⟩ := made.edges b member
      have reached := (made.ownership.listed b member last (List.mem_of_getLast? ends)).2
      have next := leads.successors_eq
      rw [alone last reached, (fresh first List.mem_cons_self).successors] at next
      obtain rfl := List.map_eq_nil_iff.mp next.symm
      exact .stop (List.forall₂_nil_right_iff.mp children) kinds

theorem fans_of_linked {listing linked : Listing n} {code built : Arena n}
    (listed : Listing.ofList arena instrs = .ok listing)
    (links : listing.link arena = .ok linked code)
    (constructed : construct linked.items code = .ok graph built) :
    ∃ first, code.Built first graph built ∧ ∀ b ∈ graph.members, built.Fans b := by
  cases instrs with
  | nil =>
      rw [(linked_of_fresh fresh listed links).1] at constructed
      cases constructed
  | cons first rest =>
      obtain ⟨chained, made, -⟩ := built_of_fresh fresh listed links constructed
      exact ⟨first, made, fun b member => made.fans chained List.mem_cons_self member⟩

/-- Every graph that is returned fans out, whichever way it was made. -/
theorem Returned.fannedOut (returned : Returned arena instrs graph after) :
    after.FannedOut graph.members := by
  cases returned with
  | unlinked constructed => exact fannedOut_of_unlinked fresh constructed
  | linked listed links constructed =>
      obtain ⟨first, made, fans⟩ := fans_of_linked fresh listed links constructed
      exact made.fannedOut (.refl after) fans
  | analysed ran =>
      obtain ⟨listing, linked, code, built, listed, links, constructed, tags⟩ := analyse_of_ok ran
      obtain ⟨first, made, fans⟩ := fans_of_linked fresh listed links constructed
      have retags := Script.retags_of_tagDeadEdges tags
      refine made.fannedOut retags fun b member => ?_
      apply made.fans_retags member retags ?_ (fans b member)
      rw [Script.kinds_of_tagDeadEdges tags]
      split
      next => exact .inr rfl
      next => exact .inl rfl

/-- **Neighbours without subroutines.** In a graph that is returned, an edge is found by its
end just if the block has no two edges to one child. Children that stand earlier and parents
that do not are kept as the kinds of their own edges say. Children that do not stand earlier
are so just if the block does not call what comes next, and earlier parents just if no block
calls this one so. -/
theorem Returned.neighbours (returned : Returned arena instrs graph after) :
    ∀ b ∈ graph.members,
      (after.LooksUp b ↔ (after.block b).children.Nodup) ∧
      after.earlierChildren b false = .ok (after.ownChildren b (· < after.address b)) ∧
      (after.laterChildren b false = .ok (after.ownChildren b (after.address b ≤ ·)) ↔
        ∀ c, ¬ after.CallsTwice b c) ∧
      (∃ found, after.earlierParents b false = .ok found ∧
        (after.KeepsParents graph.members b (· < after.address b) found ↔
          ∀ p ∈ graph.members, ¬ after.CallsTwice p b)) ∧
      ∃ found, after.laterParents b false = .ok found ∧
        after.KeepsParents graph.members b (after.address b ≤ ·) found := by
  have fanned := returned.fannedOut fresh
  intro b member
  have fans := fanned.fans b member
  refine ⟨fans.looksUp_iff, ?_, ?_, ?_, ?_⟩
  · apply fans.selectChildren_iff.mpr
    intro c twice
    have later := (fans.of_callsTwice twice).2.1
    exact decide_eq_false (Int.not_lt.mpr (Int.le_of_lt later))
  · refine fans.selectChildren_iff.trans (forall_congr' fun c => ?_)
    refine imp_congr_right fun twice => ?_
    have later := (fans.of_callsTwice twice).2.1
    simpa using Int.le_of_lt later
  · obtain ⟨found, selected, keeps⟩ := fanned.selectParents_iff member (· < after.address b)
    refine ⟨found, selected, keeps.trans (forall₂_congr fun p known => ?_)⟩
    constructor
    · intro once twice
      have later := ((fanned.fans p known).of_callsTwice twice).2.1
      exact once (decide_eq_true later) twice
    · exact fun once _ => once
  · obtain ⟨found, selected, keeps⟩ := fanned.selectParents_iff member (after.address b ≤ ·)
    refine ⟨found, selected, keeps.mpr ?_⟩
    intro p known below twice
    have later := ((fanned.fans p known).of_callsTwice twice).2.1
    exact Int.not_le.mpr later (of_decide_eq_true below)

end Graph

theorem Arena.not_callsTwice {arena : Arena n} {b c : BlockId}
    (single : (arena.block b).children.Nodup) : ¬ arena.CallsTwice b c := by
  rintro ⟨both, -⟩
  rw [both] at single
  simp at single

/-- A call is left out of the children, and the place it comes back to is kept. -/
theorem Graph.Returned.neighbours_tangled :
    ∃ graph after, (∀ i ∈ List.finRange 10, (Arena.tangled.instr i).IsFresh) ∧
      Returned Arena.tangled (List.finRange 10) graph after ∧ 0 ∈ graph.members ∧
      3 ∈ graph.members ∧ (after.block 0).children = [1, 3] ∧ after.LooksUp 0 ∧
      after.laterChildren 0 false = .ok [3] ∧
      ∃ found, after.earlierParents 3 false = .ok found ∧
        after.KeepsParents graph.members 3 (· < after.address 3) found := by
  have fresh : ∀ i ∈ List.finRange 10, (Arena.tangled.instr i).IsFresh := by decide
  have runs : (match analyse (List.finRange 10) {} Arena.tangled with
      | .error .. => false
      | .ok result after => decide (0 ∈ result.graph.members ∧ 3 ∈ result.graph.members ∧
          (∀ p ∈ result.graph.members, (after.block p).children.Nodup) ∧
          (after.block 0).children = [1, 3] ∧
          after.ownChildren 0 (after.address 0 ≤ ·) = [3])) = true := by
    decide +kernel
  cases analysed : analyse (List.finRange 10) {} Arena.tangled with
  | error fault after => rw [analysed] at runs; cases runs
  | ok result after =>
      simp only [analysed, decide_eq_true_eq] at runs
      obtain ⟨caller, back, single, children, own⟩ := runs
      have returned : Returned Arena.tangled (List.finRange 10) result.graph after :=
        .analysed analysed
      obtain ⟨looksUp, -, later, -⟩ := Returned.neighbours fresh returned 0 caller
      obtain ⟨-, -, -, ⟨found, selected, keeps⟩, -⟩ := Returned.neighbours fresh returned 3 back
      refine ⟨result.graph, after, fresh, returned, caller, back, children,
        looksUp.mpr (single 0 caller), ?_, found, selected, keeps.mpr ?_⟩
      · rw [← own]
        exact later.mpr fun c => Arena.not_callsTwice (single 0 caller)
      · exact fun p known => Arena.not_callsTwice (single p known)

/-- A call of the instruction after it. -/
def Arena.callingNext : Arena 2 where
  instrs := #v[
    { address := 0, opcode := .jsr, targets := [6] },
    { address := 6, opcode := .retn }]

/-- The edge by which the call comes back is taken for the call and left out with it, at both
of its ends. -/
theorem Graph.Returned.neighbours_callingNext :
    ∃ graph after, (∀ i ∈ List.finRange 2, (Arena.callingNext.instr i).IsFresh) ∧
      Returned Arena.callingNext (List.finRange 2) graph after ∧
      ∃ b ∈ graph.members, ∃ c ∈ graph.members, ¬ after.LooksUp b ∧
        after.laterChildren b false = .ok [] ∧
        after.ownChildren b (after.address b ≤ ·) = [c] ∧
        after.earlierParents c false = .ok [] ∧ after.ownEdges b c = 1 := by
  have fresh : ∀ i ∈ List.finRange 2, (Arena.callingNext.instr i).IsFresh := by decide
  have runs : (match analyse (List.finRange 2) {} Arena.callingNext with
      | .error .. => false
      | .ok result after => decide (0 ∈ result.graph.members ∧ 1 ∈ result.graph.members ∧
          (after.block 0).children = [1, 1] ∧
          (after.block 0).kinds = [.functionCall, .functionReturn] ∧
          after.edgeKind 0 1 = .ok .functionCall ∧ after.laterChildren 0 false = .ok [] ∧
          after.ownChildren 0 (after.address 0 ≤ ·) = [1] ∧
          after.earlierParents 1 false = .ok [] ∧ after.ownEdges 0 1 = 1)) = true := by
    decide +kernel
  cases analysed : analyse (List.finRange 2) {} Arena.callingNext with
  | error fault after => rw [analysed] at runs; cases runs
  | ok result after =>
      simp only [analysed, decide_eq_true_eq] at runs
      obtain ⟨caller, next, children, kinds, first, lists⟩ := runs
      refine ⟨result.graph, after, fresh, .analysed analysed, 0, caller, 1, next, ?_, lists⟩
      intro looksUp
      obtain ⟨kind, there, answer⟩ := looksUp 1 1 (by rw [children]; rfl)
      rw [kinds] at there
      cases there
      rw [first] at answer
      cases answer

end ScriptFlow
