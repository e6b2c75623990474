import Mathlib.Data.List.Chain
import Mathlib.Data.List.Nodup
import ScriptFlow.Listing
import ScriptFlow.Proofs.Flow

/-!
# What linking does

Linking touches the followers, branches and kinds of instructions, and nothing else.
First the items are chained (`Listing.chain`), which settles their followers. All that
comes after changes branches and kinds only, and keeps leaders (`Arena.Resolves`).

`Arena.Linked` is what linking fresh instructions leads to: each item is followed by the
next one, every branch goes to an item, and that of a jump or call to one that starts a
block or comes next.
-/

namespace ScriptFlow

variable {n : Nat}

/-- A leader stays one, whatever else it is used as. -/
theorem AddressKind.strongest_ne_plain {old new : AddressKind}
    (special : old ≠ .plain ∨ new ≠ .plain) : strongest old new ≠ .plain := by
  cases old <;> cases new <;> simp_all [strongest, priority]

/-- Every use by a branch makes a leader. -/
theorem Opcode.branchKind?_ne_plain {op : Opcode} {kind : AddressKind}
    (found : op.branchKind? = some kind) : kind ≠ .plain := by
  intro plain
  rw [plain] at found
  cases op <;> cases found

/-! ## Resolving branches -/

/-- Branches and kinds have changed, and every leader is still one. -/
structure Arena.Resolves (before after : Arena n) : Prop where
  blocks : after.blocks = before.blocks
  instr : ∀ i, ∃ kind branches, after.instr i = { before.instr i with kind, branches }
  leader : ∀ i, (before.instr i).isLeader = true → (after.instr i).isLeader = true

namespace Arena.Resolves

theorem refl (arena : Arena n) : arena.Resolves arena :=
  ⟨rfl, fun _ => ⟨_, _, rfl⟩, fun _ leads => leads⟩

theorem trans {before middle after : Arena n} (early : before.Resolves middle)
    (late : middle.Resolves after) : before.Resolves after := by
  refine ⟨late.blocks.trans early.blocks, ?_, fun i leads => late.leader i (early.leader i leads)⟩
  intro i
  obtain ⟨kind, branches, first⟩ := early.instr i
  obtain ⟨kind', branches', second⟩ := late.instr i
  exact ⟨kind', branches', by rw [second, first]⟩

/-- An instruction may get other branches and another kind, if it stays a leader where it is
one. -/
theorem modifyInstr (arena : Arena n) (i : Fin n) (change : Instruction n → Instruction n)
    (shape : ∃ kind branches, change (arena.instr i) = { arena.instr i with kind, branches })
    (leads : (arena.instr i).isLeader = true → (change (arena.instr i)).isLeader = true) :
    arena.Resolves (arena.modifyInstr i change) := by
  refine ⟨rfl, ?_, ?_⟩
  · intro j
    rw [instr_modifyInstr]
    split
    next same => exact same ▸ shape
    next => exact ⟨_, _, rfl⟩
  · intro j leader
    rw [instr_modifyInstr]
    split
    next same => exact leads (same ▸ leader)
    next => exact leader

/-- Marking an instruction leaves its branches alone, and every leader one. -/
theorem stamp (i : Fin n) (kind : Option AddressKind) (arena : Arena n) :
    arena.Resolves (Listing.stamp i kind arena) := by
  cases kind with
  | none => exact refl arena
  | some kind =>
      refine modifyInstr arena i (fun instr => { instr with kind := instr.kind.strongest kind })
        ⟨_, _, rfl⟩ ?_
      intro leader
      have special : (arena.instr i).kind ≠ .plain := by
        simpa [Instruction.isLeader] using leader
      simpa [Instruction.isLeader] using AddressKind.strongest_ne_plain (.inl special)

section Fields

variable {before after : Arena n} (resolves : before.Resolves after) (i : Fin n)

include resolves

theorem opcode : (after.instr i).opcode = (before.instr i).opcode := by
  obtain ⟨kind, branches, same⟩ := resolves.instr i
  rw [same]

theorem follower : (after.instr i).follower = (before.instr i).follower := by
  obtain ⟨kind, branches, same⟩ := resolves.instr i
  rw [same]

theorem owner : after.owner i = before.owner i := by
  obtain ⟨kind, branches, same⟩ := resolves.instr i
  rw [Arena.owner, same, Arena.owner]

end Fields

end Arena.Resolves

namespace Listing

/-- An instruction that is marked with a use is a leader. -/
theorem isLeader_stamp {i : Fin n} {kind : Option AddressKind} {arena : Arena n}
    (used : kind ≠ none) (special : kind ≠ some .plain) :
    ((stamp i kind arena).instr i).isLeader = true := by
  cases kind with
  | none => exact (used rfl).elim
  | some kind =>
      have marked : kind ≠ .plain := fun same => special (same ▸ rfl)
      simpa [stamp, Instruction.isLeader] using AddressKind.strongest_ne_plain (.inr marked)

/-- Marking an instruction changes no branches. -/
theorem branches_stamp (i j : Fin n) (kind : Option AddressKind) (arena : Arena n) :
    ((stamp i kind arena).instr j).branches = (arena.instr j).branches := by
  cases kind with
  | none => rfl
  | some kind =>
      rw [stamp, Arena.instr_modifyInstr]
      split
      next same => rw [same]
      next => rfl

/-- Looking up an address reads addresses only. -/
theorem find?_congr {listing : Listing n} {before after : Arena n}
    (address : ∀ i, (after.instr i).address = (before.instr i).address)
    (target : Address) : listing.find? after target = listing.find? before target := by
  simp only [find?, address]

/-- What is found at a target is an item, and nothing changes. -/
theorem destination_of_ok {listing : Listing n} {instr : Instruction n}
    {target : Address} {i : Fin n} {arena after : Arena n}
    (found : listing.destination instr target arena = .ok i after) :
    i ∈ listing.items ∧ after = arena := by
  obtain ⟨_, _, ⟨⟩, ran⟩ := ok_of_bind found
  cases seen : listing.find? arena target with
  | none => rw [seen] at ran; cases ran
  | some j =>
      rw [seen] at ran
      cases ran
      exact ⟨List.mem_of_find?_eq_some seen, rfl⟩

theorem find?_of_destination {listing : Listing n} {instr : Instruction n}
    {target : Address} {i : Fin n} {arena after : Arena n}
    (found : listing.destination instr target arena = .ok i after) :
    listing.find? arena target = some i := by
  obtain ⟨_, _, ⟨⟩, ran⟩ := ok_of_bind found
  cases seen : listing.find? arena target with
  | none => rw [seen] at ran; cases ran
  | some j => rw [seen] at ran; cases ran; rfl

/-- A target without an item is reported at the instruction that has it, and nothing changes. -/
theorem destination_of_error {listing : Listing n} {instr : Instruction n}
    {target : Address} {fault : Fault} {arena after : Arena n}
    (missed : listing.destination instr target arena = .error fault after) :
    listing.find? arena target = none ∧ fault = instr.fault (.unresolvedTarget target) ∧
      after = arena := by
  rcases error_of_bind missed with read | ⟨_, _, ⟨⟩, ran⟩
  · cases read
  · cases seen : listing.find? arena target with
    | none => rw [seen] at ran; cases ran; exact ⟨rfl, rfl, rfl⟩
    | some j => rw [seen] at ran; cases ran

/-- Looking up targets marks items, and finds items that are marked. -/
theorem destinations_of_ok {listing : Listing n} {instr : Instruction n}
    {targets : List Address} {reached : List (Fin n)} {arena after : Arena n}
    (found : listing.destinations instr targets arena = .ok reached after) :
    arena.Resolves after ∧ (∀ i, (after.instr i).branches = (arena.instr i).branches) ∧
      ∀ i ∈ reached, i ∈ listing.items ∧
        (instr.opcode.branchKind? ≠ none → (after.instr i).isLeader = true) := by
  induction targets generalizing arena reached with
  | nil =>
      cases found
      exact ⟨.refl _, fun i => rfl, by simp⟩
  | cons target rest ih =>
      obtain ⟨i, _, first, ran⟩ := ok_of_bind found
      obtain ⟨listed, rfl⟩ := destination_of_ok first
      obtain ⟨_, marked, ⟨⟩, ran⟩ := ok_of_bind ran
      obtain ⟨others, _, later, ⟨⟩⟩ := ok_of_bind ran
      obtain ⟨resolves, branches, ends⟩ := ih later
      refine ⟨(Arena.Resolves.stamp ..).trans resolves, ?_, ?_⟩
      · intro j
        rw [branches, branches_stamp]
      · intro j member
        rcases List.mem_cons.mp member with rfl | other
        · refine ⟨listed, fun used => resolves.leader _ (isLeader_stamp used ?_)⟩
          exact fun plain => Opcode.branchKind?_ne_plain plain rfl
        · exact ends j other

theorem destinations_of_error {listing : Listing n} {instr : Instruction n}
    {targets : List Address} {fault : Fault} {arena after : Arena n}
    (failed : listing.destinations instr targets arena = .error fault after) :
    ∃ defect, fault = instr.fault defect := by
  induction targets generalizing arena with
  | nil => cases failed
  | cons target rest ih =>
      rcases error_of_bind failed with missed | ⟨i, middle, first, ran⟩
      · exact ⟨_, (destination_of_error missed).2.1⟩
      · rcases error_of_bind ran with marked | ⟨_, _, ⟨⟩, ran⟩
        · cases marked
        · rcases error_of_bind ran with later | ⟨_, _, _, done⟩
          · exact ih later
          · cases done

/-- The branches of an instruction go to items, and to leaders if it is a jump or call,
or to its follower. -/
def Settled (listing : Listing n) (arena : Arena n) (i : Fin n) : Prop :=
  ∀ j ∈ (arena.instr i).branches, (j ∈ listing.items ∧
    ((arena.instr i).opcode.branchKind? ≠ none → (arena.instr j).isLeader = true)) ∨
      (arena.instr i).follower = some j

/-- An instruction stays settled while it keeps its branches. -/
theorem Settled.resolves {listing : Listing n} {before after : Arena n} {i : Fin n}
    (settled : listing.Settled before i) (resolves : before.Resolves after)
    (branches : (after.instr i).branches = (before.instr i).branches) :
    listing.Settled after i := by
  intro j branch
  rw [branches] at branch
  rw [resolves.opcode, resolves.follower]
  rcases settled j branch with ⟨listed, leads⟩ | next
  · exact .inl ⟨listed, fun used => resolves.leader j (leads used)⟩
  · exact .inr next

theorem follower_of_mem_fallThrough {instr : Instruction n} {j : Fin n}
    (falls : j ∈ fallThrough instr) : instr.follower = some j := by
  unfold fallThrough at falls
  split at falls
  next => simpa using falls
  next => cases falls

/-- Resolving an item settles it, and unsettles none. -/
theorem resolve_of_ok {listing : Listing n} {i : Fin n} {arena after : Arena n}
    (resolved : listing.resolve i arena = .ok () after) :
    arena.Resolves after ∧ listing.Settled after i ∧
      ∀ j, listing.Settled arena j → listing.Settled after j := by
  obtain ⟨_, _, ⟨⟩, ran⟩ := ok_of_bind resolved
  obtain ⟨reached, middle, found, ⟨⟩⟩ := ok_of_bind ran
  obtain ⟨marks, branches, ends⟩ := destinations_of_ok found
  have sets : middle.Resolves (middle.modifyInstr i
      ({ · with branches := reached ++ fallThrough (arena.instr i) })) :=
    .modifyInstr middle i _ ⟨_, _, rfl⟩ id
  have here : listing.Settled (middle.modifyInstr i
      ({ · with branches := reached ++ fallThrough (arena.instr i) })) i := by
    intro j branch
    rw [sets.opcode, sets.follower, marks.opcode, marks.follower]
    rw [Arena.instr_modifyInstr_self] at branch
    rcases List.mem_append.mp branch with target | falls
    · obtain ⟨listed, leads⟩ := ends j target
      exact .inl ⟨listed, fun used => sets.leader j (leads used)⟩
    · exact .inr (follower_of_mem_fallThrough falls)
  refine ⟨marks.trans sets, here, ?_⟩
  intro j settled
  by_cases same : i = j
  · exact same ▸ here
  · apply (settled.resolves marks (branches j)).resolves sets
    rw [Arena.instr_modifyInstr, if_neg same]

theorem resolve_of_error {listing : Listing n} {i : Fin n} {fault : Fault}
    {arena after : Arena n} (failed : listing.resolve i arena = .error fault after) :
    ∃ instr : Instruction n, ∃ defect, fault = instr.fault defect := by
  rcases error_of_bind failed with read | ⟨_, _, ⟨⟩, ran⟩
  · cases read
  · rcases error_of_bind ran with missed | ⟨_, _, _, done⟩
    · exact ⟨_, destinations_of_error missed⟩
    · cases done

/-- Resolving items settles all of them. -/
theorem resolveAll_of_ok {listing : Listing n} {items : List (Fin n)} {arena after : Arena n}
    (resolved : listing.resolveAll items arena = .ok () after) :
    arena.Resolves after ∧
      ∀ i, i ∈ items ∨ listing.Settled arena i → listing.Settled after i := by
  induction items generalizing arena with
  | nil =>
      cases resolved
      exact ⟨.refl _, by simp⟩
  | cons i rest ih =>
      obtain ⟨_, middle, first, ran⟩ := ok_of_bind resolved
      obtain ⟨resolves, settled, kept⟩ := resolve_of_ok first
      obtain ⟨later, settles⟩ := ih ran
      refine ⟨resolves.trans later, ?_⟩
      intro j known
      rcases known with listed | already
      · rcases List.mem_cons.mp listed with rfl | other
        · exact settles _ (.inr settled)
        · exact settles j (.inl other)
      · exact settles j (.inr (kept j already))

theorem resolveAll_of_error {listing : Listing n} {items : List (Fin n)} {fault : Fault}
    {arena after : Arena n} (failed : listing.resolveAll items arena = .error fault after) :
    ∃ instr : Instruction n, ∃ defect, fault = instr.fault defect := by
  induction items generalizing arena with
  | nil => cases failed
  | cons i rest ih =>
      rcases error_of_bind failed with here | ⟨_, _, _, later⟩
      · exact resolve_of_error here
      · exact ih later

/-! ## Chaining followers -/

theorem chain_cons_cons (i j : Fin n) (rest : List (Fin n)) (arena : Arena n) :
    chain (i :: j :: rest) arena =
      chain (j :: rest) (arena.modifyInstr i ({ · with follower := some j })) := rfl

/-- Chaining changes followers only. -/
theorem instr_chain (items : List (Fin n)) (arena : Arena n) (i : Fin n) :
    ∃ follower, (chain items arena).instr i = { arena.instr i with follower } := by
  induction items generalizing arena with
  | nil => exact ⟨_, rfl⟩
  | cons k rest ih =>
      cases rest with
      | nil => exact ⟨_, rfl⟩
      | cons j rest =>
          obtain ⟨follower, same⟩ := ih (arena.modifyInstr k ({ · with follower := some j }))
          rw [chain_cons_cons, same, Arena.instr_modifyInstr]
          split
          next here => exact ⟨follower, by rw [here]⟩
          next => exact ⟨follower, rfl⟩

/-- Chaining items leaves other instructions alone. -/
theorem instr_chain_of_not_mem {items : List (Fin n)} {i : Fin n} (other : i ∉ items)
    (arena : Arena n) : (chain items arena).instr i = arena.instr i := by
  induction items generalizing arena with
  | nil => rfl
  | cons k rest ih =>
      cases rest with
      | nil => rfl
      | cons j rest =>
          rw [List.mem_cons, not_or] at other
          rw [chain_cons_cons, ih other.2, Arena.instr_modifyInstr, if_neg (Ne.symm other.1)]

theorem blocks_chain (items : List (Fin n)) (arena : Arena n) :
    (chain items arena).blocks = arena.blocks := by
  induction items generalizing arena with
  | nil => rfl
  | cons i rest ih =>
      cases rest with
      | nil => rfl
      | cons j rest => rw [chain_cons_cons, ih, Arena.blocks_modifyInstr]

/-- Each item is followed by the next one, and the last by none. -/
theorem follower_chain {items : List (Fin n)} {arena : Arena n} (once : items.Nodup)
    (fresh : ∀ i ∈ items, (arena.instr i).follower = none) :
    ∀ i ∈ items, ∀ j, ((chain items arena).instr i).follower = some j ↔ [i, j] <:+: items := by
  induction items generalizing arena with
  | nil =>
      intro i listed
      cases listed
  | cons k rest ih =>
      intro i listed j
      cases rest with
      | nil =>
          have none : ((chain [k] arena).instr i).follower = none := fresh i listed
          have long : ¬ [i, j] <:+: [k] := fun inside => by simpa using inside.length_le
          rw [none]
          exact iff_of_false nofun long
      | cons l rest =>
          rw [List.nodup_cons] at once
          rw [chain_cons_cons, List.infix_cons_iff]
          rcases List.mem_cons.mp listed with rfl | later
          · have away : ¬ [i, j] <:+: l :: rest := fun inside => once.1 (inside.subset (by simp))
            rw [instr_chain_of_not_mem once.1, Arena.instr_modifyInstr_self]
            simp [away, eq_comm]
          · have differs : k ≠ i := fun same => once.1 (same ▸ later)
            have away : ¬ [i, j] <+: k :: l :: rest := by
              simp [Ne.symm differs]
            rw [ih once.2 _ i later j]
            · exact ⟨.inr, fun next => next.resolve_left away⟩
            · intro m member
              have other : k ≠ m := fun same => once.1 (same ▸ member)
              rw [Arena.instr_modifyInstr, if_neg other]
              exact fresh m (List.mem_cons_of_mem _ member)

/-! ## Linked listings -/

/-- No item is misplaced just if addresses rise from first to last. -/
theorem misplaced?_eq_none_iff {arena : Arena n} {items : List (Fin n)} :
    misplaced? arena items = none ↔
      items.Pairwise fun i j => (arena.instr i).address < (arena.instr j).address := by
  rw [← List.isChain_iff_pairwise]
  fun_induction misplaced? arena items with
  | case1 i j rest falls => simp [falls]
  | case2 i j rest rises ih => simp [ih, Int.not_le.mp rises]
  | case3 items short =>
      cases items with
      | nil => simp
      | cons i rest =>
          cases rest with
          | nil => simp
          | cons j rest => exact (short i j rest rfl).elim

/-- Where addresses rise, no item is repeated. -/
theorem nodup_of_rising {arena : Arena n} {items : List (Fin n)}
    (rising : items.Pairwise fun i j => (arena.instr i).address < (arena.instr j).address) :
    items.Nodup := by
  apply rising.imp
  intro i j below same
  exact Int.lt_irrefl _ (same ▸ below)

/-- Instructions that stand in order stand at different addresses. -/
theorem eq_of_rising {arena : Arena n} {items : List (Fin n)}
    (rising : items.Pairwise fun i j => (arena.instr i).address < (arena.instr j).address)
    {i j : Fin n} (left : i ∈ items) (right : j ∈ items)
    (same : (arena.instr i).address = (arena.instr j).address) : i = j := by
  have once : (items.map fun i => (arena.instr i).address).Nodup := by
    refine List.pairwise_map.mpr (rising.imp ?_)
    intro i j below
    exact Int.ne_of_lt below
  exact List.inj_on_of_nodup_map once left right same

/-- A sequence is a listing just if its addresses rise. -/
theorem ofList_eq_ok_iff {arena : Arena n} {items : List (Fin n)} {listing : Listing n} :
    ofList arena items = .ok listing ↔
      (items.Pairwise fun i j => (arena.instr i).address < (arena.instr j).address) ∧
        listing = ⟨items, items.any fun i => (arena.instr i).isResolved⟩ := by
  rw [← misplaced?_eq_none_iff, ofList]
  cases misplaced? arena items with
  | none => simp [eq_comm]
  | some place => simp

end Listing

/-- Instructions that stand in order, are followed by the next one, and branch to each
other: to a leader, if they jump or call, or to the next one. -/
structure Arena.Linked (code : Arena n) (items : List (Fin n)) : Prop where
  rising : items.Pairwise fun i j => (code.instr i).address < (code.instr j).address
  follower : ∀ i ∈ items, ∀ j, (code.instr i).follower = some j ↔ [i, j] <:+: items
  branches : ∀ i ∈ items, ∀ j ∈ (code.instr i).branches, (j ∈ items ∧
    ((code.instr i).opcode.branchKind? ≠ none → (code.instr j).isLeader = true)) ∨
      (code.instr i).follower = some j
  entry : ∀ i, items.head? = some i → (code.instr i).isLeader = true

namespace Listing

/-- Linking that succeeds has chained the items, marked the entry and resolved all items. -/
theorem link_of_ok {listing linked : Listing n} {arena after : Arena n}
    (unlinked : listing.linked = false) (ran : listing.link arena = .ok linked after) :
    linked = { listing with linked := true } ∧
      listing.resolveAll listing.items (listing.stampEntry (chain listing.items arena)) =
        .ok () after := by
  rw [link, if_neg (Bool.eq_false_iff.mp unlinked)] at ran
  obtain ⟨_, _, ⟨⟩, ran⟩ := ok_of_bind ran
  obtain ⟨_, _, ⟨⟩, ran⟩ := ok_of_bind ran
  obtain ⟨_, _, resolved, ⟨⟩⟩ := ok_of_bind ran
  exact ⟨rfl, resolved⟩

/-- Linking stops where a branch of some item is not resolved. -/
theorem resolveAll_of_link {listing : Listing n} {fault : Fault} {arena after : Arena n}
    (failed : listing.link arena = .error fault after) :
    listing.linked = false ∧
      listing.resolveAll listing.items (listing.stampEntry (chain listing.items arena)) =
        .error fault after := by
  unfold link at failed
  split at failed
  next => cases failed
  next unlinked =>
    refine ⟨Bool.eq_false_iff.mpr unlinked, ?_⟩
    rcases error_of_bind failed with chained | ⟨_, _, ⟨⟩, ran⟩
    · cases chained
    · rcases error_of_bind ran with stamped | ⟨_, _, ⟨⟩, ran⟩
      · cases stamped
      · rcases error_of_bind ran with missed | ⟨_, _, _, done⟩
        · exact missed
        · cases done

/-- Linking fails on account of an instruction only. -/
theorem link_of_error {listing : Listing n} {fault : Fault} {arena after : Arena n}
    (failed : listing.link arena = .error fault after) :
    ∃ instr : Instruction n, ∃ defect, fault = instr.fault defect :=
  resolveAll_of_error (resolveAll_of_link failed).2

theorem stampEntry_resolves (listing : Listing n) (arena : Arena n) :
    arena.Resolves (listing.stampEntry arena) := by
  unfold stampEntry
  split
  next => exact .refl arena
  next => exact .stamp ..

/-- Before items are resolved, no branches have changed. -/
theorem branches_chained (listing : Listing n) (arena : Arena n) (i : Fin n) :
    ((listing.stampEntry (chain listing.items arena)).instr i).branches =
      (arena.instr i).branches := by
  obtain ⟨follower, chained⟩ := instr_chain listing.items arena i
  unfold stampEntry
  split
  next => rw [chained]
  next => rw [branches_stamp, chained]

section Resolved

variable {listing : Listing n} {arena after : Arena n}
  (resolves : (listing.stampEntry (chain listing.items arena)).Resolves after)

include resolves

/-- Chaining and resolving keep all of an instruction but its follower, branches and kind. -/
theorem instr_of_resolves (i : Fin n) : ∃ follower kind branches,
    after.instr i = { arena.instr i with follower, kind, branches } := by
  obtain ⟨kind, branches, same⟩ :=
    ((listing.stampEntry_resolves _).trans resolves).instr i
  obtain ⟨follower, chained⟩ := instr_chain listing.items arena i
  exact ⟨follower, kind, branches, by rw [same, chained]⟩

/-- Items that are chained, and whose branches are settled, are linked. -/
theorem linked_of_resolves
    (rising : listing.items.Pairwise fun i j =>
      (arena.instr i).address < (arena.instr j).address)
    (fresh : ∀ i ∈ listing.items, (arena.instr i).follower = none)
    (settled : ∀ i ∈ listing.items, listing.Settled after i) : after.Linked listing.items := by
  have stamped := listing.stampEntry_resolves (chain listing.items arena)
  have once := nodup_of_rising rising
  have address : ∀ i, (after.instr i).address = (arena.instr i).address := by
    intro i
    obtain ⟨follower, kind, branches, same⟩ := instr_of_resolves resolves i
    rw [same]
  refine ⟨?_, ?_, settled, ?_⟩
  · apply rising.imp
    intro i j below
    rw [address, address]
    exact below
  · intro i listed j
    rw [resolves.follower, stamped.follower]
    exact follower_chain once fresh i listed j
  · intro i head
    apply resolves.leader i
    obtain ⟨rest, items⟩ : ∃ rest, listing.items = i :: rest := by
      cases same : listing.items with
      | nil => rw [same] at head; cases head
      | cons k rest => rw [same] at head; cases head; exact ⟨rest, rfl⟩
    rw [stampEntry, items]
    exact isLeader_stamp nofun nofun

end Resolved

/-- Linking keeps the addresses and the owners of instructions. -/
theorem kept_of_link {listing linked : Listing n} {arena after : Arena n}
    (ran : listing.link arena = .ok linked after) (i : Fin n) :
    (after.instr i).address = (arena.instr i).address ∧ after.owner i = arena.owner i := by
  cases state : listing.linked with
  | true =>
      rw [link, if_pos state] at ran
      cases ran
      exact ⟨rfl, rfl⟩
  | false =>
      obtain ⟨-, resolved⟩ := link_of_ok state ran
      obtain ⟨follower, kind, branches, same⟩ :=
        instr_of_resolves (resolveAll_of_ok resolved).1 i
      rw [Arena.owner, same]
      exact ⟨rfl, rfl⟩

/-- **Linking.** A listing of instructions without followers that is linked without a
fault is linked as `Arena.Linked` says. -/
theorem linked_of_link {listing linked : Listing n} {arena after : Arena n}
    (rising : listing.items.Pairwise fun i j =>
      (arena.instr i).address < (arena.instr j).address)
    (fresh : ∀ i ∈ listing.items, (arena.instr i).follower = none)
    (unlinked : listing.linked = false) (ran : listing.link arena = .ok linked after) :
    linked.items = listing.items ∧ after.Linked listing.items := by
  obtain ⟨rfl, resolved⟩ := link_of_ok unlinked ran
  obtain ⟨resolves, settled⟩ := resolveAll_of_ok resolved
  exact ⟨rfl, linked_of_resolves resolves rising fresh fun i listed => settled i (.inl listed)⟩

end Listing

end ScriptFlow
