import Mathlib.Data.List.Forall2
import ScriptFlow.Proofs.Linking

/-!
# What linking computes

Linking looks up the targets of the items one after the other, in program order, and marks
each item it finds. `Listing.Reached` says how the instructions stand when some references
have been looked up and some items have their branches: followers are those of the chain,
and the kind of an item is the strongest of those it has been given so far, whatever the
order in which they came. A plain address is weaker than the label of a jump, that than a stored
state, and that than a subroutine (`AddressKind.AtMost`).

`Listing.link_spec` is what comes of it. Linking succeeds just if every target is an item,
and then all references have been looked up; else it stops at the first one that is no
item, and all before that have been looked up.
-/

namespace ScriptFlow

variable {n : Nat}

namespace AddressKind

/-- Of two kinds the second is at least as strong: they are the same, or the first one stands
before the second where the kinds are listed from the weakest to the strongest. -/
def AtMost (weak strong : AddressKind) : Prop :=
  weak = strong ∨ [weak, strong].Sublist [.plain, .jumpLabel, .storeState, .subroutine]

instance (weak strong : AddressKind) : Decidable (weak.AtMost strong) :=
  inferInstanceAs (Decidable (_ ∨ _))

/-- Strength is what priorities measure. -/
theorem atMost_iff {weak strong : AddressKind} :
    weak.AtMost strong ↔ weak.priority ≤ strong.priority := by
  cases weak <;> cases strong <;> decide

/-- The kind is one of those given, and none of them is stronger. -/
structure IsStrongest (among : AddressKind → Prop) (kind : AddressKind) : Prop where
  mem : among kind
  le : ∀ other, among other → other.AtMost kind

variable {among more : AddressKind → Prop} {kind new : AddressKind}

/-- Which kind is the strongest depends on what is among the kinds only. -/
theorem IsStrongest.congr (strongest : IsStrongest among kind)
    (same : ∀ other, more other ↔ among other) : IsStrongest more kind :=
  ⟨(same kind).mpr strongest.mem, fun other used => strongest.le other ((same other).mp used)⟩

/-- One more use makes the stronger of the two kinds the strongest. -/
theorem IsStrongest.insert (strongest : IsStrongest among kind)
    (extends_ : ∀ other, more other ↔ among other ∨ other = new) :
    IsStrongest more (AddressKind.strongest kind new) := by
  refine ⟨?_, ?_⟩
  · rw [extends_, AddressKind.strongest]
    split
    next => exact .inr rfl
    next => exact .inl strongest.mem
  · intro other used
    rw [atMost_iff, priority_strongest]
    rcases (extends_ other).mp used with old | rfl
    · exact Nat.le_trans (atMost_iff.mp (strongest.le other old)) (Nat.le_max_left ..)
    · exact Nat.le_max_right ..

end AddressKind

namespace Listing

/-- Where instructions branch to, in order: each of them with each of its targets. -/
def references (arena : Arena n) (instrs : List (Fin n)) : List (Fin n × Address) :=
  instrs.flatMap fun i => (arena.instr i).targets.map (i, ·)

/-- What an item is used for, given the references that have been looked up. -/
inductive Uses (listing : Listing n) (arena : Arena n) (made : List (Fin n × Address))
    (i : Fin n) : AddressKind → Prop
  | initial : Uses listing arena made i (arena.instr i).kind
  | entry : listing.items.head? = some i → Uses listing arena made i .subroutine
  | branch {source : Fin n} {kind : AddressKind} :
    (source, (arena.instr i).address) ∈ made →
    (arena.instr source).opcode.branchKind? = some kind → Uses listing arena made i kind

/-- The item stands at the target. -/
def Meets (listing : Listing n) (arena : Arena n) (target : Address) (i : Fin n) : Prop :=
  i ∈ listing.items ∧ (arena.instr i).address = target

/-- The branches of an item go to the items at its targets, in order, and after those of a
conditional jump to its follower. -/
def Resolved (listing : Listing n) (before after : Arena n) (i : Fin n) : Prop :=
  ∃ reached, List.Forall₂ (listing.Meets before) (before.instr i).targets reached ∧
    (after.instr i).branches = reached ++
      if (before.instr i).opcode.isConditional then (after.instr i).follower.toList else []

/-- How far linking has come when the given references have been looked up, and the given
items have their branches. -/
structure Reached (listing : Listing n) (before : Arena n) (made : List (Fin n × Address))
    (resolved : List (Fin n)) (after : Arena n) : Prop where
  blocks : after.blocks = before.blocks
  others : ∀ i, i ∉ listing.items → after.instr i = before.instr i
  items : ∀ i ∈ listing.items, ∃ follower kind branches,
    after.instr i = { before.instr i with follower, kind, branches }
  followers : ∀ place i, listing.items[place]? = some i →
    (after.instr i).follower = listing.items[place + 1]?
  kinds : ∀ i ∈ listing.items,
    AddressKind.IsStrongest (listing.Uses before made i) (after.instr i).kind
  branches : ∀ i ∈ resolved, listing.Resolved before after i
  pending : ∀ i, i ∉ resolved → (after.instr i).branches = (before.instr i).branches

/-- Every target of the given instructions is an item of the listing. -/
def Complete (listing : Listing n) (arena : Arena n) (instrs : List (Fin n)) : Prop :=
  ∀ i ∈ instrs, ∀ target ∈ (arena.instr i).targets, listing.find? arena target ≠ none

/-- The targets that have been passed stand at items, and the next one does not. -/
structure StopsIn (listing : Listing n) (arena : Arena n) (targets passed : List Address)
    (target : Address) : Prop where
  next : passed ++ [target] <+: targets
  known : ∀ other ∈ passed, ∃ i, listing.Meets arena other i
  missing : ¬ ∃ i, listing.Meets arena target i

variable {listing linked : Listing n} {before arena after : Arena n}
  {made : List (Fin n × Address)} {resolved : List (Fin n)}

/-! ## Look-ups -/

theorem meets_of_find? {target : Address} {i : Fin n}
    (found : listing.find? arena target = some i) : listing.Meets arena target i := by
  have stands := List.find?_some found
  exact ⟨List.mem_of_find?_eq_some found, of_decide_eq_true stands⟩

/-- No item is found at a target just if none stands there. -/
theorem find?_eq_none_iff {target : Address} :
    listing.find? arena target = none ↔ ¬ ∃ i, listing.Meets arena target i := by
  simp [find?, Meets]

theorem complete_iff {instrs : List (Fin n)} :
    listing.Complete arena instrs ↔
      ∀ i ∈ instrs, ∀ target ∈ (arena.instr i).targets, ∃ j, listing.Meets arena target j := by
  simp only [Complete, ne_eq, find?_eq_none_iff, not_not]

/-- Linking keeps addresses and targets, so it changes nothing about which targets are items. -/
theorem complete_congr {instrs : List (Fin n)}
    (same : ∀ i, ∃ follower kind branches, after.instr i =
      { before.instr i with follower, kind, branches }) :
    listing.Complete after instrs ↔ listing.Complete before instrs := by
  have address : ∀ i, (after.instr i).address = (before.instr i).address := by
    intro i
    obtain ⟨follower, kind, branches, same⟩ := same i
    rw [same]
  have targets : ∀ i, (after.instr i).targets = (before.instr i).targets := by
    intro i
    obtain ⟨follower, kind, branches, same⟩ := same i
    rw [same]
  simp only [Complete, targets, find?_congr address]

/-- Targets that have been looked up are items. -/
theorem known_of_meets {targets : List Address} {reached : List (Fin n)}
    (meets : List.Forall₂ (listing.Meets arena) targets reached) :
    ∀ target ∈ targets, ∃ i, listing.Meets arena target i := by
  induction meets with
  | nil => exact nofun
  | cons here _ ih => exact List.forall_mem_cons.mpr ⟨⟨_, here⟩, ih⟩

theorem references_append (arena : Arena n) (early late : List (Fin n)) :
    references arena (early ++ late) = references arena early ++ references arena late :=
  List.flatMap_append

theorem references_singleton (arena : Arena n) (i : Fin n) :
    references arena [i] = (arena.instr i).targets.map (i, ·) := by
  simp [references]

/-- One more look-up gives a use to the item at its target, and to no other. -/
theorem uses_append_singleton {source i : Fin n} {target : Address} {kind : AddressKind} :
    listing.Uses arena (made ++ [(source, target)]) i kind ↔
      listing.Uses arena made i kind ∨
        (arena.instr i).address = target ∧ (arena.instr source).opcode.branchKind? = some kind := by
  constructor
  · intro uses
    cases uses with
    | initial => exact .inl .initial
    | entry head => exact .inl (.entry head)
    | branch listed used =>
        rcases List.mem_append.mp listed with old | new
        · exact .inl (.branch old used)
        · cases List.mem_singleton.mp new
          exact .inr ⟨rfl, used⟩
  · rintro (old | ⟨rfl, used⟩)
    · cases old with
      | initial => exact .initial
      | entry head => exact .entry head
      | branch listed used => exact .branch (List.mem_append_left _ listed) used
    · exact .branch (List.mem_append_right _ (List.mem_singleton_self _)) used

namespace Reached

theorem instr (sofar : listing.Reached before made resolved after) (i : Fin n) :
    ∃ follower kind branches, after.instr i = { before.instr i with follower, kind, branches } := by
  by_cases listed : i ∈ listing.items
  · exact sofar.items i listed
  · exact ⟨_, _, _, sofar.others i listed⟩

/-- Linking so far has moved no item, so look-ups find what they found at the start. -/
theorem find? (sofar : listing.Reached before made resolved after) (target : Address) :
    listing.find? after target = listing.find? before target := by
  apply find?_congr
  intro i
  obtain ⟨follower, kind, branches, same⟩ := sofar.instr i
  rw [same]

theorem opcode (sofar : listing.Reached before made resolved after) (i : Fin n) :
    (after.instr i).opcode = (before.instr i).opcode := by
  obtain ⟨follower, kind, branches, same⟩ := sofar.instr i
  rw [same]

theorem targets (sofar : listing.Reached before made resolved after) (i : Fin n) :
    (after.instr i).targets = (before.instr i).targets := by
  obtain ⟨follower, kind, branches, same⟩ := sofar.instr i
  rw [same]

/-- A change of kinds that leaves all but items as they are. -/
theorem of_kinds (sofar : listing.Reached before made resolved arena)
    {more : List (Fin n × Address)} (blocks : after.blocks = arena.blocks)
    (others : ∀ i, i ∉ listing.items → after.instr i = arena.instr i)
    (changed : ∀ i, ∃ kind, after.instr i = { arena.instr i with kind })
    (kinds : ∀ i ∈ listing.items,
      AddressKind.IsStrongest (listing.Uses before more i) (after.instr i).kind) :
    listing.Reached before more resolved after := by
  have followers : ∀ i, (after.instr i).follower = (arena.instr i).follower := by
    intro i
    obtain ⟨kind, same⟩ := changed i
    rw [same]
  have branches : ∀ i, (after.instr i).branches = (arena.instr i).branches := by
    intro i
    obtain ⟨kind, same⟩ := changed i
    rw [same]
  refine ⟨blocks.trans sofar.blocks, ?_, ?_, ?_, kinds, ?_, ?_⟩
  · intro i unlisted
    rw [others i unlisted, sofar.others i unlisted]
  · intro i listed
    obtain ⟨kind, same⟩ := changed i
    obtain ⟨follower, _, branches, earlier⟩ := sofar.items i listed
    exact ⟨follower, kind, branches, by rw [same, earlier]⟩
  · intro place i listed
    rw [followers, sofar.followers place i listed]
  · intro i done
    obtain ⟨reached, meets, ends⟩ := sofar.branches i done
    exact ⟨reached, meets, by rw [branches, followers, ends]⟩
  · intro i waits
    rw [branches, sofar.pending i waits]

/-- An item gets its branches. -/
theorem branch (sofar : listing.Reached before made resolved arena) {i : Fin n}
    (listed : i ∈ listing.items) {reached falls : List (Fin n)}
    (meets : List.Forall₂ (listing.Meets before) (before.instr i).targets reached)
    (next : falls =
      if (before.instr i).opcode.isConditional then (arena.instr i).follower.toList else []) :
    listing.Reached before made (resolved ++ [i])
      (arena.modifyInstr i ({ · with branches := reached ++ falls })) := by
  have here := arena.instr_modifyInstr_self i ({ · with branches := reached ++ falls })
  have kept : ∀ j, i ≠ j →
      (arena.modifyInstr i ({ · with branches := reached ++ falls })).instr j = arena.instr j := by
    intro j apart
    rw [Arena.instr_modifyInstr, if_neg apart]
  have changed : ∀ j, ∃ branches,
      (arena.modifyInstr i ({ · with branches := reached ++ falls })).instr j =
        { arena.instr j with branches } := by
    intro j
    by_cases same : i = j
    · subst same
      exact ⟨_, here⟩
    · exact ⟨_, kept j same⟩
  refine ⟨sofar.blocks, ?_, ?_, ?_, ?_, ?_, ?_⟩
  · intro j unlisted
    rw [kept j fun same => unlisted (same ▸ listed), sofar.others j unlisted]
  · intro j member
    obtain ⟨branches, same⟩ := changed j
    obtain ⟨follower, kind, _, known⟩ := sofar.items j member
    exact ⟨follower, kind, branches, by rw [same, known]⟩
  · intro place j there
    obtain ⟨branches, same⟩ := changed j
    rw [same]
    exact sofar.followers place j there
  · intro j member
    obtain ⟨branches, same⟩ := changed j
    rw [same]
    exact sofar.kinds j member
  · intro j done
    by_cases same : i = j
    · subst same
      exact ⟨reached, meets, by rw [here, next]⟩
    · have earlier : j ∈ resolved := by simpa [Ne.symm same] using done
      rw [Resolved, kept j same]
      exact sofar.branches j earlier
  · intro j waits
    rw [List.mem_append, not_or, List.mem_singleton] at waits
    rw [kept j (Ne.symm waits.2), sofar.pending j waits.1]

section Steps

variable (rising : listing.items.Pairwise fun i j =>
  (before.instr i).address < (before.instr j).address)

include rising

/-- Looking up a reference marks the item there. -/
theorem stamp (sofar : listing.Reached before made resolved arena)
    {target : Address} {i : Fin n} (meets : listing.Meets before target i) (source : Fin n) :
    listing.Reached before (made ++ [(source, target)]) resolved
      (Listing.stamp i (before.instr source).opcode.branchKind? arena) := by
  obtain ⟨listed, stands⟩ := meets
  cases used : (before.instr source).opcode.branchKind? with
  | none =>
      refine { sofar with kinds := ?_ }
      intro j member
      apply (sofar.kinds j member).congr
      intro other
      rw [uses_append_singleton, used]
      simp
  | some kind =>
      refine sofar.of_kinds rfl ?_ ?_ ?_
      · intro j unlisted
        have apart : i ≠ j := fun same => unlisted (same ▸ listed)
        rw [Listing.stamp, Arena.instr_modifyInstr, if_neg apart]
      · intro j
        rw [Listing.stamp, Arena.instr_modifyInstr]
        split
        next same => exact ⟨_, by rw [same]⟩
        next => exact ⟨_, rfl⟩
      · intro j member
        have strongest := sofar.kinds j member
        rw [Listing.stamp, Arena.instr_modifyInstr]
        split
        next same =>
          subst same
          apply strongest.insert
          intro other
          rw [uses_append_singleton, used]
          simp [stands, eq_comm]
        next apart =>
          apply strongest.congr
          intro other
          have elsewhere : (before.instr j).address ≠ target := fun same =>
            apart (eq_of_rising rising listed member (stands.trans same.symm))
          rw [uses_append_singleton]
          simp [elsewhere]

variable {instr : Instruction n} {source : Fin n} {targets : List Address} {fault : Fault}

/-- Targets that are all found have been looked up, in order. -/
theorem destinations_of_ok (sofar : listing.Reached before made resolved arena)
    (opcode : instr.opcode = (before.instr source).opcode) {reached : List (Fin n)}
    (found : listing.destinations instr targets arena = .ok reached after) :
    listing.Reached before (made ++ targets.map (source, ·)) resolved after ∧
      List.Forall₂ (listing.Meets before) targets reached := by
  -- Look-ups read addresses, which linking keeps, so what is found is what `before` has there.
  induction targets generalizing arena made reached with
  | nil =>
      cases found
      exact ⟨by simpa using sofar, .nil⟩
  | cons target rest ih =>
      obtain ⟨i, _, first, ran⟩ := ok_of_bind found
      obtain ⟨-, rfl⟩ := destination_of_ok first
      obtain ⟨_, _, ⟨⟩, ran⟩ := ok_of_bind ran
      obtain ⟨others, _, later, ⟨⟩⟩ := ok_of_bind ran
      have meets : listing.Meets before target i :=
        meets_of_find? ((sofar.find? target).symm.trans (find?_of_destination first))
      rw [opcode] at later
      obtain ⟨whole, rest⟩ := ih (sofar.stamp rising meets source) later
      exact ⟨by simpa using whole, .cons meets rest⟩

/-- The first target without an item stops the search. Those before it have been looked up. -/
theorem destinations_of_error (sofar : listing.Reached before made resolved arena)
    (opcode : instr.opcode = (before.instr source).opcode)
    (failed : listing.destinations instr targets arena = .error fault after) :
    ∃ passed target, listing.StopsIn before targets passed target ∧
      fault = instr.fault (.unresolvedTarget target) ∧
      listing.Reached before (made ++ passed.map (source, ·)) resolved after := by
  induction targets generalizing arena made with
  | nil => cases failed
  | cons target rest ih =>
      rcases error_of_bind failed with missed | ⟨i, _, first, ran⟩
      · obtain ⟨missing, reported, rfl⟩ := destination_of_error missed
        rw [sofar.find?, find?_eq_none_iff] at missing
        exact ⟨[], target, ⟨⟨rest, rfl⟩, nofun, missing⟩, reported, by simpa using sofar⟩
      · obtain ⟨-, rfl⟩ := destination_of_ok first
        rcases error_of_bind ran with marked | ⟨_, _, ⟨⟩, ran⟩
        · cases marked
        rcases error_of_bind ran with later | ⟨_, _, _, done⟩
        · have meets : listing.Meets before target i :=
            meets_of_find? ((sofar.find? target).symm.trans (find?_of_destination first))
          rw [opcode] at later
          obtain ⟨passed, other, ⟨next, known, missing⟩, reported, whole⟩ :=
            ih (sofar.stamp rising meets source) later
          have stops : listing.StopsIn before (target :: rest) (target :: passed) other :=
            ⟨List.cons_prefix_cons.mpr ⟨rfl, next⟩,
              List.forall_mem_cons.mpr ⟨⟨i, meets⟩, known⟩, missing⟩
          exact ⟨target :: passed, other, stops, reported, by simpa using whole⟩
        · cases done

/-- An item that is resolved has its branches, and its targets have been looked up. -/
theorem resolve_of_ok (sofar : listing.Reached before made resolved arena)
    {i : Fin n} (listed : i ∈ listing.items) (ran : listing.resolve i arena = .ok () after) :
    listing.Reached before (made ++ references before [i]) (resolved ++ [i]) after := by
  obtain ⟨_, _, ⟨⟩, ran⟩ := ok_of_bind ran
  obtain ⟨reached, middle, found, ⟨⟩⟩ := ok_of_bind ran
  have marks := (Listing.destinations_of_ok found).1
  rw [sofar.targets] at found
  obtain ⟨whole, meets⟩ := sofar.destinations_of_ok rising (sofar.opcode i) found
  rw [references_singleton]
  apply whole.branch listed meets
  rw [fallThrough, sofar.opcode, marks.follower]

/-- An item that cannot be resolved stops at the first of its targets without an item. -/
theorem resolve_of_error (sofar : listing.Reached before made resolved arena)
    {i : Fin n} (failed : listing.resolve i arena = .error fault after) :
    ∃ passed target, listing.StopsIn before (before.instr i).targets passed target ∧
      fault = (before.instr i).fault (.unresolvedTarget target) ∧
      listing.Reached before (made ++ passed.map (i, ·)) resolved after := by
  have reports : (arena.instr i).fault = (before.instr i).fault := by
    obtain ⟨follower, kind, branches, same⟩ := sofar.instr i
    rw [same]
    rfl
  rcases error_of_bind failed with read | ⟨_, _, ⟨⟩, ran⟩
  · cases read
  · rcases error_of_bind ran with missed | ⟨_, _, _, done⟩
    · rw [sofar.targets] at missed
      have stops := sofar.destinations_of_error rising (sofar.opcode i) missed
      rwa [reports] at stops
    · cases done

/-- Items that are resolved one after the other all have their branches. -/
theorem resolveAll_of_ok {rest : List (Fin n)} (sofar : listing.Reached before made resolved arena)
    (listed : ∀ i ∈ rest, i ∈ listing.items)
    (ran : listing.resolveAll rest arena = .ok () after) :
    listing.Reached before (made ++ references before rest) (resolved ++ rest) after := by
  induction rest generalizing arena made resolved with
  | nil =>
      cases ran
      simpa [references] using sofar
  | cons i rest ih =>
      obtain ⟨_, middle, first, later⟩ := ok_of_bind ran
      rw [List.forall_mem_cons] at listed
      have whole := ih (sofar.resolve_of_ok rising listed.1 first) listed.2 later
      rwa [List.append_assoc, List.append_assoc, ← references_append] at whole

/-- Linking stops at the first target, in program order, at which there is no item. -/
theorem resolveAll_of_error {rest : List (Fin n)}
    (sofar : listing.Reached before made resolved arena)
    (listed : ∀ i ∈ rest, i ∈ listing.items)
    (failed : listing.resolveAll rest arena = .error fault after) :
    ∃ early i passed target, early ++ [i] <+: rest ∧
      listing.StopsIn before (before.instr i).targets passed target ∧
      fault = (before.instr i).fault (.unresolvedTarget target) ∧
      listing.Reached before (made ++ (references before early ++ passed.map (i, ·)))
        (resolved ++ early) after := by
  induction rest generalizing arena made resolved with
  | nil => cases failed
  | cons i rest ih =>
      rcases error_of_bind failed with here | ⟨_, middle, first, later⟩
      · obtain ⟨passed, target, stops, reported, whole⟩ := sofar.resolve_of_error rising here
        refine ⟨[], i, passed, target, ⟨rest, rfl⟩, stops, reported, ?_⟩
        simpa [references] using whole
      · rw [List.forall_mem_cons] at listed
        obtain ⟨early, j, passed, target, next, stops, reported, whole⟩ :=
          ih (sofar.resolve_of_ok rising listed.1 first) listed.2 later
        refine ⟨i :: early, j, passed, target, List.cons_prefix_cons.mpr ⟨rfl, next⟩, stops,
          reported, ?_⟩
        have joined : references before (i :: early) =
            references before [i] ++ references before early := references_append before [i] early
        rw [joined]
        simpa using whole

end Steps

end Reached

/-! ## The start -/

/-- In a list without repetition, one entry follows another just if it has the next place. -/
theorem infix_iff_of_getElem? {items : List (Fin n)} (once : items.Nodup) {place : Nat}
    {i j : Fin n} (there : items[place]? = some i) :
    [i, j] <:+: items ↔ items[place + 1]? = some j := by
  rw [List.infix_iff_getElem?]
  constructor
  · rintro ⟨front, bound, at_⟩
    have here : items[0 + front]? = some i := at_ 0 (by simp)
    have next : items[1 + front]? = some j := at_ 1 (by simp)
    rw [Nat.zero_add] at here
    obtain ⟨inside, same⟩ := List.getElem?_eq_some_iff.mp there
    obtain ⟨beyond, again⟩ := List.getElem?_eq_some_iff.mp here
    have equal : place = front := (List.Nodup.getElem_inj_iff once).mp (same.trans again.symm)
    rwa [equal, Nat.add_comm]
  · intro next
    obtain ⟨inside, -⟩ := List.getElem?_eq_some_iff.mp next
    refine ⟨place, by simp; omega, fun k bound => ?_⟩
    match k, bound with
    | 0, _ => simpa using there
    | 1, _ => rw [Nat.add_comm]; exact next

/-- In a chain the follower of an item is the one at the next place, if there is one. -/
theorem follower_chain_getElem? {items : List (Fin n)} (once : items.Nodup)
    (fresh : ∀ i ∈ items, (arena.instr i).follower = none) {place : Nat} {i : Fin n}
    (there : items[place]? = some i) :
    ((chain items arena).instr i).follower = items[place + 1]? := by
  apply Option.ext
  intro j
  rw [follower_chain once fresh i (List.mem_of_getElem? there) j]
  exact infix_iff_of_getElem? once there

/-- Before any look-up an item has its own kind, and the first one that of a subroutine. -/
theorem uses_nil {i : Fin n} {kind : AddressKind} :
    listing.Uses arena [] i kind ↔
      kind = (arena.instr i).kind ∨ listing.items.head? = some i ∧ kind = .subroutine := by
  constructor
  · intro uses
    cases uses with
    | initial => exact .inl rfl
    | entry head => exact .inr ⟨head, rfl⟩
    | branch listed => cases listed
  · rintro (rfl | ⟨head, rfl⟩)
    · exact .initial
    · exact .entry head

/-- This is how far linking has come when it starts to resolve: followers are set, and the entry
is marked. -/
theorem reached_chained
    (rising : listing.items.Pairwise fun i j =>
      (before.instr i).address < (before.instr j).address)
    (fresh : ∀ i ∈ listing.items, (before.instr i).follower = none) :
    listing.Reached before [] [] (listing.stampEntry (chain listing.items before)) := by
  have stamped := listing.stampEntry_resolves (chain listing.items before)
  have once := nodup_of_rising rising
  refine ⟨?_, ?_, ?_, ?_, ?_, nofun, fun i _ => branches_chained listing before i⟩
  · rw [stamped.blocks, blocks_chain]
  · intro i unlisted
    unfold stampEntry
    split
    next => exact instr_chain_of_not_mem unlisted before
    next first rest items =>
      have apart : first ≠ i := fun same => unlisted (by simp [items, same])
      rw [Listing.stamp, Arena.instr_modifyInstr, if_neg apart]
      exact instr_chain_of_not_mem unlisted before
  · intro i _
    exact instr_of_resolves (.refl _) i
  · intro place i there
    rw [stamped.follower]
    exact follower_chain_getElem? once fresh there
  · intro i listed
    have plain : ((chain listing.items before).instr i).kind = (before.instr i).kind := by
      obtain ⟨follower, same⟩ := instr_chain listing.items before i
      rw [same]
    have initial : AddressKind.IsStrongest (· = (before.instr i).kind) (before.instr i).kind :=
      ⟨rfl, fun _ same => .inl same⟩
    unfold stampEntry
    split
    next empty => rw [empty] at listed; cases listed
    next first rest items =>
      rw [Listing.stamp, Arena.instr_modifyInstr]
      split
      next same =>
        subst same
        show AddressKind.IsStrongest _ (AddressKind.strongest _ _)
        rw [plain]
        apply initial.insert
        intro other
        rw [uses_nil, items]
        simp
      next apart =>
        rw [plain]
        apply initial.congr
        intro other
        rw [uses_nil, items]
        simp [apart]

/-! ## Linking -/

section Linking

variable {instrs : List (Fin n)} {fault : Fault}
  (listed : ofList arena instrs = .ok listing)
  (fresh : ∀ i ∈ instrs, (arena.instr i).isResolved = false)

include listed fresh

/-- Linking starts with nothing looked up. -/
theorem reached_of_ofList : listing = ⟨instrs, false⟩ ∧
    (listing.items.Pairwise fun i j => (arena.instr i).address < (arena.instr j).address) ∧
    listing.Reached arena [] [] (listing.stampEntry (chain listing.items arena)) := by
  obtain ⟨rising, rfl⟩ := ofList_eq_ok_iff.mp listed
  refine ⟨?_, rising, reached_chained rising ?_⟩
  · simpa using fresh
  · intro i member
    have unresolved := fresh i member
    rw [Instruction.isResolved, Bool.or_eq_false_iff] at unresolved
    simpa using unresolved.1

/-- Linking that succeeds has looked up all references and resolved all items. -/
theorem reached_of_link (ran : listing.link arena = .ok linked after) :
    linked = ⟨instrs, true⟩ ∧ listing.Reached arena (references arena instrs) instrs after := by
  obtain ⟨rfl, rising, start⟩ := reached_of_ofList listed fresh
  obtain ⟨rfl, resolved⟩ := link_of_ok rfl ran
  exact ⟨rfl, start.resolveAll_of_ok rising (fun i member => member) resolved⟩

/-- Linking that fails has done so up to the first target without an item. -/
theorem stops_of_link (failed : listing.link arena = .error fault after) :
    ∃ early i passed target, early ++ [i] <+: instrs ∧
      listing.StopsIn arena (arena.instr i).targets passed target ∧
      fault = (arena.instr i).fault (.unresolvedTarget target) ∧
      listing.Reached arena (references arena early ++ passed.map (i, ·)) early after := by
  obtain ⟨rfl, rising, start⟩ := reached_of_ofList listed fresh
  have stopped := (resolveAll_of_link failed).2
  exact start.resolveAll_of_error rising (fun i member => member) stopped

/-- Linking succeeds just if every target is an item. -/
theorem link_ok_iff :
    (∃ linked after, listing.link arena = .ok linked after) ↔ listing.Complete arena instrs := by
  rw [complete_iff]
  constructor
  · rintro ⟨linked, after, ran⟩ i member
    obtain ⟨reached, meets, -⟩ := (reached_of_link listed fresh ran).2.branches i member
    exact known_of_meets meets
  · intro complete
    cases ran : listing.link arena with
    | ok linked after => exact ⟨linked, after, rfl⟩
    | error fault after =>
        obtain ⟨early, i, passed, target, next, stops, -⟩ := stops_of_link listed fresh ran
        have member : i ∈ instrs := next.subset (by simp)
        exact (stops.missing (complete i member target (stops.next.subset (by simp)))).elim

/-- **Linking.** It succeeds just if every target is the address of an item. Then the
listing is linked: each item is followed by the next one, its branches go to the items at its
targets and, if it is a conditional jump, to its follower, and its kind is the strongest of
those it is used as. Else it stops at the first target, in program order, that is no item,
and reports it with the address and the operation of the item that has it. -/
theorem link_spec :
    ((∃ linked after, listing.link arena = .ok linked after) ↔
      ∀ i ∈ instrs, ∀ target ∈ (arena.instr i).targets,
        ∃ j ∈ instrs, (arena.instr j).address = target) ∧
    (∀ linked after, listing.link arena = .ok linked after →
      linked = ⟨instrs, true⟩ ∧ listing.Reached arena (references arena instrs) instrs after) ∧
    ∀ fault after, listing.link arena = .error fault after →
      ∃ early i passed target, early ++ [i] <+: instrs ∧
        (∀ j ∈ early, ∀ other ∈ (arena.instr j).targets, ∃ k, listing.Meets arena other k) ∧
        listing.StopsIn arena (arena.instr i).targets passed target ∧
        fault = .malformed (arena.instr i).address (.known (arena.instr i).opcode)
          (.unresolvedTarget target) ∧
        listing.Reached arena (references arena early ++ passed.map (i, ·)) early after := by
  refine ⟨?_, fun linked after => reached_of_link listed fresh, ?_⟩
  · rw [link_ok_iff listed fresh, complete_iff]
    obtain ⟨rfl, -⟩ := reached_of_ofList listed fresh
    exact Iff.rfl
  · intro fault after failed
    obtain ⟨early, i, passed, target, next, stops, reported, reached⟩ :=
      stops_of_link listed fresh failed
    refine ⟨early, i, passed, target, next, ?_, stops, reported, reached⟩
    intro j before
    obtain ⟨others, meets, -⟩ := reached.branches j before
    exact known_of_meets meets

end Linking

end Listing

/-- Branches of every sort, forwards and backwards, and an instruction that is no branch
although it has targets. -/
def Arena.crossed : Arena 5 where
  instrs := #v[
    { address := -6, opcode := .jz, targets := [8, -6] },
    { address := 0, opcode := .storestate, targets := [8, 14] },
    { address := 8, opcode := .add, kind := .jumpLabel, targets := [0, 20] },
    { address := 14, opcode := .jsr, targets := [0, 8] },
    { address := 20, opcode := .jnz, targets := [14] }]

namespace Listing

/-- In a list without repetition, an entry tells what stands before it. So linking stops at one
place only. -/
theorem front_unique {α : Type} {items front other : List α} {entry : α} (once : items.Nodup)
    (stops : front ++ [entry] <+: items) (again : other ++ [entry] <+: items) : front = other := by
  have place : ∀ run, run ++ [entry] <+: items → items[run.length]? = some entry := by
    rintro run ⟨rest, rfl⟩
    simp
  have bound : front.length < items.length :=
    (List.getElem?_eq_some_iff.mp (place front stops)).1
  have same : front.length = other.length :=
    (List.getElem?_inj bound once).mp ((place front stops).trans (place other again).symm)
  have shorter : front ++ [entry] <+: other ++ [entry] :=
    List.prefix_of_prefix_length_le stops again (by simp [same])
  exact List.append_cancel_right (shorter.eq_of_length (by simp [same]))

/-- Taken as a whole, the instructions have all targets among them. Without the one at 14 linking
stops at the one at 0. By then both targets of the first instruction have been looked up, and the
first target of the second one. -/
theorem link_spec_crossed :
    (∃ after, link ⟨[0, 1, 2, 3, 4], false⟩ Arena.crossed = .ok ⟨[0, 1, 2, 3, 4], true⟩ after ∧
      Reached ⟨[0, 1, 2, 3, 4], false⟩ Arena.crossed
        (references Arena.crossed [0, 1, 2, 3, 4]) [0, 1, 2, 3, 4] after) ∧
    ∃ after, link ⟨[0, 1, 2, 4], false⟩ Arena.crossed =
        .error (.malformed 0 (.known .storestate) (.unresolvedTarget 14)) after ∧
      Reached ⟨[0, 1, 2, 4], false⟩ Arena.crossed [(0, 8), (0, -6), (1, 8)] [0] after := by
  refine ⟨?_, ?_⟩
  · have listed : ofList Arena.crossed [0, 1, 2, 3, 4] = .ok ⟨[0, 1, 2, 3, 4], false⟩ := by decide
    obtain ⟨succeeds, links, -⟩ := link_spec listed (by decide)
    obtain ⟨linked, after, ran⟩ := succeeds.mpr (by decide)
    obtain ⟨rfl, reached⟩ := links linked after ran
    exact ⟨after, ran, reached⟩
  · have listed : ofList Arena.crossed [0, 1, 2, 4] = .ok ⟨[0, 1, 2, 4], false⟩ := by decide
    obtain ⟨-, -, stops⟩ := link_spec listed (by decide)
    have runs : (match link ⟨[0, 1, 2, 4], false⟩ Arena.crossed with
        | .ok .. => false
        | .error fault _ =>
            decide (fault = .malformed 0 (.known .storestate) (.unresolvedTarget 14))) = true := by
      decide +kernel
    cases ran : link ⟨[0, 1, 2, 4], false⟩ Arena.crossed with
    | ok linked after => simp [ran] at runs
    | error fault after =>
        simp only [ran, decide_eq_true_eq] at runs
        obtain ⟨early, i, passed, target, next, -, missed, reported, reached⟩ :=
          stops fault after ran
        rw [runs] at reported
        obtain ⟨address, -, ⟨⟩⟩ := Fault.malformed.inj reported
        -- The address tells the instruction, and its place tells what has been looked up.
        have second : ∀ j, 0 = (Arena.crossed.instr j).address → j = 1 := by decide
        obtain rfl := second i address
        have before : early = [0] := front_unique (by decide) next ⟨[2, 4], rfl⟩
        have found : passed = [8] := front_unique (by decide) missed.next ⟨[], rfl⟩
        subst before found runs
        exact ⟨after, rfl, reached⟩

end Listing

end ScriptFlow
