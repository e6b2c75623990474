import Mathlib.Logic.Function.Basic
import ScriptFlow.Analysis
import ScriptFlow.Proofs.Linking
import ScriptFlow.Proofs.Outcome

/-!
# Addresses under a map

Instructions, blocks, faults and events with each address replaced by its image under a
function. Of two addresses the operations on an arena ask at most whether they are equal or
which of them is less, so for a function that is strictly increasing they commute with the
replacement: on the images they have the same outcome, with the images in it.

This module has the operations on an arena and linking.
-/

namespace ScriptFlow

variable {n : Nat}

namespace Address

/-- The function keeps the order of addresses strictly. -/
def Increasing (f : Address → Address) : Prop :=
  ∀ low high, low < high → f low < f high

variable {f : Address → Address} {a b : Address}

/-- An increasing map keeps the order of addresses, and two images tell how their addresses
stand. -/
theorem Increasing.le_iff (increasing : Increasing f) : f a ≤ f b ↔ a ≤ b := by
  constructor
  · intro image
    by_contra above
    exact Int.not_lt.mpr image (increasing b a (Int.not_le.mp above))
  · intro below
    rcases Int.lt_or_eq_of_le below with less | rfl
    · exact Int.le_of_lt (increasing a b less)
    · exact Int.le_refl _

theorem Increasing.lt_iff (increasing : Increasing f) : f a < f b ↔ a < b := by
  rw [← Int.not_le, increasing.le_iff, Int.not_le]

/-- An increasing map takes no two addresses to one. -/
theorem Increasing.injective (increasing : Increasing f) : Function.Injective f := by
  intro a b same
  apply Int.le_antisymm
  · exact increasing.le_iff.mp (Int.le_of_eq same)
  · exact increasing.le_iff.mp (Int.le_of_eq same.symm)

end Address

/-! ## The replacement -/

/-- A defect with the images of its addresses. -/
def Defect.relabel (f : Address → Address) : Defect → Defect
  | outOfOrder previous => outOfOrder (f previous)
  | unresolvedTarget target => unresolvedTarget (f target)
  | branchCount expected found => branchCount expected found
  | noFollower => noFollower
  | remark text => remark text

/-- A problem with the images of its addresses. -/
def Problem.relabel (f : Address → Address) : Problem → Problem
  | sharedAddress count address => sharedAddress count (f address)
  | noInstructions block => noInstructions (f block)
  | startsAt block start => startsAt (f block) (f start)
  | edgeKindCount block children kinds => edgeKindCount (f block) children kinds
  | foreignChild block child => foreignChild (f block) (f child)
  | edgeMismatch block child => edgeMismatch (f block) (f child)
  | foreignParent block parent => foreignParent (f block) (f parent)
  | pointsElsewhere instruction block => pointsElsewhere (f instruction) (f block)
  | claimedTwice instruction first second => claimedTwice (f instruction) (f first) (f second)
  | uncovered instruction => uncovered (f instruction)
  | foreignInstructions block => foreignInstructions (f block)
  | scattered block => scattered (f block)
  | remark text => remark text

/-- A fault with the images of its addresses. -/
def Fault.relabel (f : Address → Address) : Fault → Fault
  | malformed address opcode defect => malformed (f address) opcode (defect.relabel f)
  | notAnEdge parent child => notAnEdge (f parent) (f child)
  | inconsistent problems => inconsistent (problems.map (Problem.relabel f))
  | emptySequence => emptySequence
  | alreadyOwned instruction => alreadyOwned (f instruction)
  | claimed instruction owner => claimed (f instruction) (f owner)
  | duplicateBlock address => duplicateBlock (f address)
  | outOfRange => outOfRange

/-- An instruction at the image of its address, with the images of its targets. -/
def Instruction.relabel (f : Address → Address) (instr : Instruction n) : Instruction n :=
  { instr with address := f instr.address, targets := instr.targets.map f }

/-- A block at the image of its address. -/
def Block.relabel (f : Address → Address) (block : Block n) : Block n :=
  { block with address := f block.address }

/-- An arena with all its instructions and blocks relabelled. -/
def Arena.relabel (f : Address → Address) (arena : Arena n) : Arena n where
  instrs := arena.instrs.map (Instruction.relabel f)
  blocks := arena.blocks.map (Block.relabel f)

/-- A draft over the relabelled arena. -/
def Draft.relabel (f : Address → Address) (draft : Draft n) : Draft n :=
  { draft with arena := draft.arena.relabel f }

/-- An event with the images of its addresses. -/
def Event.relabel (f : Address → Address) : Event → Event
  | constructed blocks instrs start => constructed blocks instrs (f start)
  | deadEdge source target => deadEdge (f source) (f target)
  | finished blocks deadEdges edges => finished blocks deadEdges edges

/-- An analysis that reports the relabelled events. -/
def Analysis.relabel (f : Address → Address) (result : Analysis) : Analysis :=
  { result with events := result.events.map (Event.relabel f) }

/-- A result with its fault relabelled, and its state and value replaced. -/
def relabelResult {σ τ α β : Type} (f : Address → Address) (state : σ → τ) (value : α → β) :
    EStateM.Result Fault σ α → EStateM.Result Fault τ β
  | .ok result after => .ok (value result) (state after)
  | .error fault after => .error (fault.relabel f) (state after)

/-- Where two operations commute with the replacement, so does one after the other. -/
theorem relabelResult_bind {σ τ α α' β β' : Type} {f : Address → Address} {state : σ → τ}
    {value : α → α'} {value' : β → β'} {first : EStateM Fault σ α} {next : α → EStateM Fault σ β}
    {first' : EStateM Fault τ α'} {next' : α' → EStateM Fault τ β'} {before : σ}
    (head : first' (state before) = relabelResult f state value (first before))
    (rest : ∀ result middle, first before = .ok result middle →
      next' (value result) (state middle) = relabelResult f state value' (next result middle)) :
    (first' >>= next') (state before) =
      relabelResult f state value' ((first >>= next) before) := by
  cases ran : first before with
  | error fault middle =>
      rw [ran] at head
      rw [bind_of_error ran, bind_of_error head]
      rfl
  | ok result middle =>
      rw [ran] at head
      rw [bind_of_ok ran, bind_of_ok head]
      exact rest result middle ran

section Steps

variable {σ τ β β' : Type} {f : Address → Address} {state : σ → τ} {value : β → β'} {before : σ}

/-- Reading the state commutes with the replacement, if what is done with it does. -/
theorem relabelResult_get_bind {next : σ → EStateM Fault σ β} {next' : τ → EStateM Fault τ β'}
    (rest : next' (state before) (state before) =
      relabelResult f state value (next before before)) :
    (get >>= next') (state before) = relabelResult f state value ((get >>= next) before) :=
  rest

/-- Changing the state commutes with the replacement, if the change itself does. -/
theorem relabelResult_modify_bind {change : σ → σ} {change' : τ → τ}
    {next : PUnit → EStateM Fault σ β} {next' : PUnit → EStateM Fault τ β'}
    (commutes : change' (state before) = state (change before))
    (rest : next' ⟨⟩ (state (change before)) =
      relabelResult f state value (next ⟨⟩ (change before))) :
    (modify change' >>= next') (state before) =
      relabelResult f state value ((modify change >>= next) before) := by
  rw [← commutes] at rest
  exact rest

end Steps

/-! ## Arenas -/

namespace Arena

variable {f : Address → Address} {arena : Arena n}

/-- Relabelling an arena relabels each of its instructions. -/
@[simp] theorem instr_relabel (f : Address → Address) (arena : Arena n) (i : Fin n) :
    (arena.relabel f).instr i = (arena.instr i).relabel f := by
  simp [Arena.relabel, instr]

@[simp] theorem owner_relabel (f : Address → Address) (arena : Arena n) (i : Fin n) :
    (arena.relabel f).owner i = arena.owner i := by
  rw [owner, instr_relabel, owner, Instruction.relabel]

@[simp] theorem size_relabel (f : Address → Address) (arena : Arena n) :
    (arena.relabel f).blocks.size = arena.blocks.size :=
  Array.size_map

/-- Relabelling an arena relabels each block that is in use. Other identifiers read as a block at
address zero before and after. -/
theorem block_relabel_of_lt (f : Address → Address) {b : BlockId}
    (stored : b < arena.blocks.size) :
    (arena.relabel f).block b = (arena.block b).relabel f := by
  simp [Arena.relabel, block, stored]

/-- A block that is in use stands at the image of its address. -/
theorem address_relabel (f : Address → Address) {b : BlockId} (stored : b < arena.blocks.size) :
    (arena.relabel f).address b = f (arena.address b) := by
  rw [address, block_relabel_of_lt f stored, address, Block.relabel]

/-- A block keeps all but its address, and so does an identifier that is not in use. -/
theorem block_relabel (f : Address → Address) (arena : Arena n) (b : BlockId) :
    ∃ address, (arena.relabel f).block b = { arena.block b with address } := by
  by_cases stored : b < arena.blocks.size
  · exact ⟨_, block_relabel_of_lt f stored⟩
  · have beyond := Nat.le_of_not_lt stored
    rw [block_of_size_le beyond, block_of_size_le (by rwa [size_relabel])]
    exact ⟨_, rfl⟩

@[simp] theorem instrs_relabel (f : Address → Address) (arena : Arena n) (b : BlockId) :
    ((arena.relabel f).block b).instrs = (arena.block b).instrs := by
  obtain ⟨address, same⟩ := block_relabel f arena b
  rw [same]

@[simp] theorem children_relabel (f : Address → Address) (arena : Arena n) (b : BlockId) :
    ((arena.relabel f).block b).children = (arena.block b).children := by
  obtain ⟨address, same⟩ := block_relabel f arena b
  rw [same]

@[simp] theorem parents_relabel (f : Address → Address) (arena : Arena n) (b : BlockId) :
    ((arena.relabel f).block b).parents = (arena.block b).parents := by
  obtain ⟨address, same⟩ := block_relabel f arena b
  rw [same]

@[simp] theorem kinds_relabel (f : Address → Address) (arena : Arena n) (b : BlockId) :
    ((arena.relabel f).block b).kinds = (arena.block b).kinds := by
  obtain ⟨address, same⟩ := block_relabel f arena b
  rw [same]

/-- A change that commutes with relabelling an instruction commutes with relabelling the arena. -/
theorem modifyInstr_relabel {i : Fin n} {change : Instruction n → Instruction n}
    (commutes : ∀ instr, change (instr.relabel f) = (change instr).relabel f) :
    (arena.relabel f).modifyInstr i change = (arena.modifyInstr i change).relabel f := by
  refine Arena.ext (fun j => ?_) rfl
  rw [instr_modifyInstr, instr_relabel, instr_relabel, instr_relabel, instr_modifyInstr, commutes]
  split
  next => rfl
  next => rfl

/-- A change that commutes with relabelling a block commutes with relabelling the arena. -/
theorem modifyBlock_relabel {b : BlockId} {change : Block n → Block n}
    (commutes : ∀ block, change (block.relabel f) = (change block).relabel f) :
    (arena.relabel f).modifyBlock b change = (arena.modifyBlock b change).relabel f := by
  refine Arena.ext (fun i => by simp) ?_
  by_cases stored : b < arena.blocks.size
  · rw [modifyBlock, block_relabel_of_lt f stored, commutes]
    exact (Array.map_setIfInBounds ..).symm
  · have beyond := Nat.le_of_not_lt stored
    simp only [modifyBlock, Arena.relabel, Array.map_setIfInBounds]
    rw [Array.setIfInBounds_eq_of_size_le (by simpa using beyond),
      Array.setIfInBounds_eq_of_size_le (by simpa using beyond)]

/-- A new block at the image of an address is the image of a new block there. -/
theorem newBlock_relabel (f : Address → Address) (arena : Arena n) (address : Address) :
    (arena.relabel f).newBlock (f address) = (arena.newBlock address).relabel f := by
  refine Arena.ext (fun i => by simp) ?_
  simp only [newBlock, Arena.relabel, Array.map_push]
  rfl

/-- Recording an edge asks for no address, so it commutes with relabelling. -/
theorem addChild_relabel (f : Address → Address) (arena : Arena n) (parent child : BlockId)
    (kind : EdgeKind) :
    (arena.relabel f).addChild parent child kind =
      (arena.addChild parent child kind).relabel f := by
  rw [addChild, modifyBlock_relabel, modifyBlock_relabel, addChild]
  · exact fun _ => rfl
  · exact fun _ => rfl

/-- Claiming an instruction asks for no address either. -/
theorem claim_relabel (f : Address → Address) (arena : Arena n) (b : BlockId) (i : Fin n) :
    (arena.relabel f).claim b i = (arena.claim b i).relabel f := by
  rw [claim, modifyInstr_relabel, modifyBlock_relabel, claim]
  · exact fun _ => rfl
  · exact fun _ => rfl

end Arena

/-! ## Linking -/

namespace Listing

variable {f : Address → Address} {listing : Listing n}

/-- Followers go by the order of the items, which a relabelling leaves alone. -/
theorem chain_relabel (f : Address → Address) (items : List (Fin n)) (arena : Arena n) :
    chain items (arena.relabel f) = (chain items arena).relabel f := by
  induction items generalizing arena with
  | nil => rfl
  | cons i rest ih =>
      cases rest with
      | nil => rfl
      | cons j rest =>
          rw [chain_cons_cons, Arena.modifyInstr_relabel, ih, chain_cons_cons]
          exact fun _ => rfl

/-- Marking an instruction changes its kind only, whatever its address. -/
theorem stamp_relabel (f : Address → Address) (i : Fin n) (kind : Option AddressKind)
    (arena : Arena n) : stamp i kind (arena.relabel f) = (stamp i kind arena).relabel f := by
  cases kind with
  | none => rfl
  | some kind =>
      rw [stamp, Arena.modifyInstr_relabel, stamp]
      exact fun _ => rfl

theorem stampEntry_relabel (f : Address → Address) (listing : Listing n) (arena : Arena n) :
    listing.stampEntry (arena.relabel f) = (listing.stampEntry arena).relabel f := by
  unfold stampEntry
  split
  next => rfl
  next => exact stamp_relabel ..

/-- Whether an item stands above the one before it is a matter of order, so the same item is
misplaced. -/
theorem misplaced?_relabel (increasing : Address.Increasing f) (arena : Arena n)
    (items : List (Fin n)) :
    misplaced? (arena.relabel f) items =
      (misplaced? arena items).map fun (i, previous) => (i, f previous) := by
  fun_induction misplaced? arena items with
  | case1 i j rest falls =>
      have falls : ((arena.relabel f).instr j).address ≤ ((arena.relabel f).instr i).address := by
        rw [Arena.instr_relabel, Arena.instr_relabel]
        exact increasing.le_iff.mpr falls
      rw [misplaced?, if_pos falls, Arena.instr_relabel]
      rfl
  | case2 i j rest rises ih =>
      have rises : ¬ ((arena.relabel f).instr j).address ≤ ((arena.relabel f).instr i).address := by
        rw [Arena.instr_relabel, Arena.instr_relabel]
        exact fun falls => rises (increasing.le_iff.mp falls)
      rw [misplaced?, if_neg rises, ih]
  | case3 items short =>
      match items, short with
      | [], _ | [_], _ => rfl
      | i :: j :: rest, short => exact (short i j rest rfl).elim

/-- The images form the same listing, or the fault names the image of the address. -/
theorem ofList_relabel (increasing : Address.Increasing f) (arena : Arena n)
    (items : List (Fin n)) :
    ofList (arena.relabel f) items = (ofList arena items).mapError (Fault.relabel f) := by
  rw [ofList, misplaced?_relabel increasing, ofList]
  cases misplaced? arena items with
  | some place =>
      simp only [Option.map_some, Arena.instr_relabel]
      rfl
  | none =>
      have resolved : ∀ i, ((arena.relabel f).instr i).isResolved = (arena.instr i).isResolved := by
        intro i
        rw [Arena.instr_relabel]
        rfl
      simp only [Option.map_none, resolved]
      rfl

section Branches

variable (injective : Function.Injective f)

include injective

/-- The item at the image of an address is the one that stood at the address. -/
theorem find?_relabel (arena : Arena n) (address : Address) :
    listing.find? (arena.relabel f) (f address) = listing.find? arena address := by
  simp only [find?, Arena.instr_relabel, Instruction.relabel, injective.eq_iff]

/-- A target that is missing is missing from the images, and the fault names its image. -/
theorem destination_relabel (instr : Instruction n) (target : Address) (arena : Arena n) :
    listing.destination (instr.relabel f) (f target) (arena.relabel f) =
      relabelResult f (Arena.relabel f) id (listing.destination instr target arena) := by
  apply relabelResult_get_bind
  rw [find?_relabel injective]
  cases listing.find? arena target with
  | none => rfl
  | some i => rfl

theorem destinations_relabel (instr : Instruction n) (targets : List Address) (arena : Arena n) :
    listing.destinations (instr.relabel f) (targets.map f) (arena.relabel f) =
      relabelResult f (Arena.relabel f) id (listing.destinations instr targets arena) := by
  induction targets generalizing arena with
  | nil => rfl
  | cons target rest ih =>
      apply relabelResult_bind (destination_relabel injective instr target arena)
      intro i middle _
      apply relabelResult_modify_bind (stamp_relabel f i _ middle)
      apply relabelResult_bind (ih _)
      intro others after _
      rfl

/-- The branches of an item are found at the images of its targets. -/
theorem resolve_relabel (i : Fin n) (arena : Arena n) :
    listing.resolve i (arena.relabel f) =
      relabelResult f (Arena.relabel f) id (listing.resolve i arena) := by
  apply relabelResult_get_bind
  rw [Arena.instr_relabel]
  apply relabelResult_bind (destinations_relabel injective (arena.instr i) _ arena)
  intro reached middle _
  refine congrArg (EStateM.Result.ok ()) (Arena.modifyInstr_relabel ?_)
  exact fun _ => rfl

theorem resolveAll_relabel (items : List (Fin n)) (arena : Arena n) :
    listing.resolveAll items (arena.relabel f) =
      relabelResult f (Arena.relabel f) id (listing.resolveAll items arena) := by
  induction items generalizing arena with
  | nil => rfl
  | cons i rest ih =>
      apply relabelResult_bind (resolve_relabel injective i arena)
      intro _ middle _
      exact ih middle

/-- Linking commutes with a relabelling that takes no two addresses to one. -/
theorem link_relabel (listing : Listing n) (arena : Arena n) :
    listing.link (arena.relabel f) =
      relabelResult f (Arena.relabel f) id (listing.link arena) := by
  unfold link
  split
  next => rfl
  next =>
    apply relabelResult_modify_bind (chain_relabel f _ arena)
    apply relabelResult_modify_bind (stampEntry_relabel f listing _)
    apply relabelResult_bind (resolveAll_relabel injective _ _)
    intro _ after _
    rfl

end Branches

end Listing

end ScriptFlow
