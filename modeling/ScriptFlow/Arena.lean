import ScriptFlow.Instruction

/-!
The arena: the instructions of a script and every block made over them.

Instructions and blocks refer to each other freely, cycles included, so both
live in one arena and are named by their place in it. Each operation is followed
by what it does to a single instruction (`instr_…`) and to a single block
(`block_…`); nothing else needs to unfold it.

An operation that can fail is an `Action`: it keeps the arena as it is at the
moment of failure, half-done work included.
-/

namespace ScriptFlow

/-- Instructions and blocks that refer to each other. -/
structure Arena (n : Nat) where
  instrs : Vector (Instruction n) n
  blocks : Array (Block n) := #[]
  deriving DecidableEq

/-- An operation on an arena that may fail, and then leaves what it has done. -/
abbrev Action (n : Nat) := EStateM Fault (Arena n)

/-- The state that an operation leaves, whether it fails or not. -/
def left {σ α : Type} : EStateM.Result Fault σ α → σ
  | .ok _ state | .error _ state => state

section Bind

variable {σ α β : Type} {first : EStateM Fault σ α} {next : α → EStateM Fault σ β}
  {before after : σ}

/-- Where the first of two operations succeeds, the second one runs on what it leaves. -/
theorem bind_of_ok {value : α} {middle : σ} (ran : first before = .ok value middle) :
    (first >>= next) before = next value middle := by
  change EStateM.bind first next before = _
  unfold EStateM.bind
  rw [ran]

/-- Two operations in a row succeed only if each of them does. -/
theorem ok_of_bind {result : β} (ran : (first >>= next) before = .ok result after) :
    ∃ value middle, first before = .ok value middle ∧
      next value middle = .ok result after := by
  change EStateM.bind first next before = _ at ran
  unfold EStateM.bind at ran
  split at ran
  next value middle found => exact ⟨value, middle, found, ran⟩
  next => cases ran

/-- Of two operations in a row either the first one fails, or it succeeds and the second one
fails. -/
theorem error_of_bind {fault : Fault}
    (failed : (first >>= next) before = .error fault after) :
    first before = .error fault after ∨ ∃ value middle, first before = .ok value middle ∧
      next value middle = .error fault after := by
  change EStateM.bind first next before = _ at failed
  unfold EStateM.bind at failed
  split at failed
  next value middle found => exact .inr ⟨value, middle, found, failed⟩
  next found => cases failed; exact .inl found

end Bind

namespace Arena

variable {n : Nat}

/-- The instruction with the given index. -/
def instr (arena : Arena n) (i : Fin n) : Instruction n :=
  arena.instrs[i]

/-- The block with the given identifier. An identifier that is not in use reads
as an empty block at address zero. -/
def block (arena : Arena n) (b : BlockId) : Block n :=
  arena.blocks[b]?.getD { address := 0 }

/-- The address of a block. -/
def address (arena : Arena n) (b : BlockId) : Address :=
  (arena.block b).address

/-- The block that owns an instruction. -/
def owner (arena : Arena n) (i : Fin n) : Option BlockId :=
  (arena.instr i).block

/-- Arenas with the same instructions, taken one by one, and the same blocks are the same. -/
@[ext] theorem ext {a b : Arena n} (instrs : ∀ i, a.instr i = b.instr i)
    (blocks : a.blocks = b.blocks) : a = b := by
  rcases a with ⟨as, _⟩
  rcases b with ⟨bs, _⟩
  cases blocks
  have same : as = bs := Vector.ext fun i bound => instrs ⟨i, bound⟩
  rw [same]

/-- An identifier that is not in use reads as an empty block. -/
theorem block_of_size_le {arena : Arena n} {b : BlockId}
    (beyond : arena.blocks.size ≤ b) : arena.block b = { address := 0 } := by
  simp [block, Array.getElem?_eq_none beyond]

/-! ## Changing one entry -/

/-- Replaces an instruction by its image under `change`. -/
def modifyInstr (arena : Arena n) (i : Fin n)
    (change : Instruction n → Instruction n) : Arena n :=
  { arena with instrs := arena.instrs.set i (change (arena.instr i)) }

/-- Replaces a block by its image under `change`. -/
def modifyBlock (arena : Arena n) (b : BlockId) (change : Block n → Block n) :
    Arena n :=
  { arena with blocks := arena.blocks.setIfInBounds b (change (arena.block b)) }

/-- Adds an empty block; its identifier is the number of blocks there were. -/
def newBlock (arena : Arena n) (address : Address) : Arena n :=
  { arena with blocks := arena.blocks.push { address } }

/-- A change to an instruction leaves the others as they are. -/
theorem instr_modifyInstr (arena : Arena n) (i j : Fin n)
    (change : Instruction n → Instruction n) :
    (arena.modifyInstr i change).instr j =
      if i = j then change (arena.instr i) else arena.instr j := by
  simp only [modifyInstr, instr, Fin.getElem_fin, Vector.getElem_set, Fin.ext_iff]

@[simp] theorem instr_modifyInstr_self (arena : Arena n) (i : Fin n)
    (change : Instruction n → Instruction n) :
    (arena.modifyInstr i change).instr i = change (arena.instr i) := by
  rw [instr_modifyInstr, if_pos rfl]

@[simp] theorem block_modifyInstr (arena : Arena n) (i : Fin n)
    (change : Instruction n → Instruction n) (b : BlockId) :
    (arena.modifyInstr i change).block b = arena.block b := rfl

@[simp] theorem blocks_modifyInstr (arena : Arena n) (i : Fin n)
    (change : Instruction n → Instruction n) :
    (arena.modifyInstr i change).blocks = arena.blocks := rfl

@[simp] theorem instr_modifyBlock (arena : Arena n) (b : BlockId)
    (change : Block n → Block n) (i : Fin n) :
    (arena.modifyBlock b change).instr i = arena.instr i := rfl

/-- A change to a block leaves the others as they are. There is no change if the identifier is not
in use. -/
theorem block_modifyBlock (arena : Arena n) (b c : BlockId)
    (change : Block n → Block n) :
    (arena.modifyBlock b change).block c =
      if b = c ∧ b < arena.blocks.size then change (arena.block b)
      else arena.block c := by
  unfold modifyBlock block
  rw [Array.getElem?_setIfInBounds]
  by_cases same : b = c
  · subst same
    by_cases bound : b < arena.blocks.size <;> simp [bound]
  · simp [same]

/-- Changing a block makes no new one. -/
@[simp] theorem size_modifyBlock (arena : Arena n) (b : BlockId)
    (change : Block n → Block n) :
    (arena.modifyBlock b change).blocks.size = arena.blocks.size := by
  simp [modifyBlock]

@[simp] theorem instr_newBlock (arena : Arena n) (address : Address) (i : Fin n) :
    (arena.newBlock address).instr i = arena.instr i := rfl

@[simp] theorem owner_newBlock (arena : Arena n) (address : Address) (i : Fin n) :
    (arena.newBlock address).owner i = arena.owner i := rfl

/-- A new block is read at the first identifier that was not in use, and the others at theirs. -/
theorem block_newBlock (arena : Arena n) (address : Address) (b : BlockId) :
    (arena.newBlock address).block b =
      if b = arena.blocks.size then { address } else arena.block b := by
  unfold newBlock block
  rw [Array.getElem?_push]
  split <;> simp

/-- The blocks that there are stay where they stand. -/
theorem address_newBlock_of_lt {arena : Arena n} {b : BlockId} (bound : b < arena.blocks.size)
    (address : Address) : (arena.newBlock address).address b = arena.address b := by
  rw [Arena.address, block_newBlock, if_neg (Nat.ne_of_lt bound), Arena.address]

/-- A new block lists no instruction, and neither did its identifier before. -/
theorem instrs_newBlock (arena : Arena n) (address : Address) (b : BlockId) :
    ((arena.newBlock address).block b).instrs = (arena.block b).instrs := by
  rw [block_newBlock]
  split
  next new => rw [block_of_size_le (Nat.le_of_eq new.symm)]
  next => rfl

@[simp] theorem size_newBlock (arena : Arena n) (address : Address) :
    (arena.newBlock address).blocks.size = arena.blocks.size + 1 := by
  simp [newBlock]

/-! ## Edges -/

/-- Records an edge at both of its ends. -/
def addChild (arena : Arena n) (parent child : BlockId) (kind : EdgeKind) : Arena n :=
  (arena.modifyBlock parent fun block =>
      { block with children := block.children ++ [child], kinds := block.kinds ++ [kind] })
    |>.modifyBlock child fun block => { block with parents := block.parents ++ [parent] }

@[simp] theorem instr_addChild (arena : Arena n) (parent child : BlockId)
    (kind : EdgeKind) (i : Fin n) :
    (arena.addChild parent child kind).instr i = arena.instr i := rfl

@[simp] theorem owner_addChild (arena : Arena n) (parent child : BlockId)
    (kind : EdgeKind) (i : Fin n) :
    (arena.addChild parent child kind).owner i = arena.owner i := rfl

/-- The child comes last among the children of the parent. Other blocks keep their children. -/
theorem children_addChild (arena : Arena n) (parent child : BlockId)
    (kind : EdgeKind) (b : BlockId) :
    ((arena.addChild parent child kind).block b).children =
      if parent = b ∧ parent < arena.blocks.size then
        (arena.block parent).children ++ [child]
      else (arena.block b).children := by
  unfold addChild
  rw [block_modifyBlock, block_modifyBlock, block_modifyBlock]
  grind

/-- The kind of an edge stands with the parent, in the place that the child has there. -/
theorem kinds_addChild (arena : Arena n) (parent child : BlockId)
    (kind : EdgeKind) (b : BlockId) :
    ((arena.addChild parent child kind).block b).kinds =
      if parent = b ∧ parent < arena.blocks.size then
        (arena.block parent).kinds ++ [kind]
      else (arena.block b).kinds := by
  unfold addChild
  rw [block_modifyBlock, block_modifyBlock, block_modifyBlock]
  grind

/-- The parent comes last among the parents of the child. Other blocks keep their parents. -/
theorem parents_addChild (arena : Arena n) (parent child : BlockId)
    (kind : EdgeKind) (b : BlockId) :
    ((arena.addChild parent child kind).block b).parents =
      if child = b ∧ child < arena.blocks.size then
        (arena.block child).parents ++ [parent]
      else (arena.block b).parents := by
  unfold addChild
  rw [block_modifyBlock, block_modifyBlock, block_modifyBlock, size_modifyBlock]
  grind

/-- An edge changes nothing about the instructions of its ends. -/
@[simp] theorem instrs_addChild (arena : Arena n) (parent child : BlockId)
    (kind : EdgeKind) (b : BlockId) :
    ((arena.addChild parent child kind).block b).instrs = (arena.block b).instrs := by
  unfold addChild
  rw [block_modifyBlock, block_modifyBlock, block_modifyBlock]
  grind

/-- The ends of an edge stay where they stand. -/
@[simp] theorem address_addChild (arena : Arena n) (parent child : BlockId)
    (kind : EdgeKind) (b : BlockId) :
    (arena.addChild parent child kind).address b = arena.address b := by
  unfold addChild address
  rw [block_modifyBlock, block_modifyBlock, block_modifyBlock]
  grind

@[simp] theorem size_addChild (arena : Arena n) (parent child : BlockId)
    (kind : EdgeKind) :
    (arena.addChild parent child kind).blocks.size = arena.blocks.size := by
  simp [addChild]

/-- Records a control construct on a block. -/
def addControl (arena : Arena n) (b : BlockId) (control : Control) : Arena n :=
  arena.modifyBlock b fun block => { block with controls := block.controls ++ [control] }

/-! ## Ownership -/

/-- Lists an instruction in a block and makes the block its owner. -/
def claim (arena : Arena n) (b : BlockId) (i : Fin n) : Arena n :=
  (arena.modifyInstr i ({ · with block := some b }))
    |>.modifyBlock b fun block => { block with instrs := block.instrs ++ [i] }

/-- An instruction that is claimed gets an owner and keeps the rest. The others are as they
were. -/
theorem instr_claim (arena : Arena n) (b : BlockId) (i j : Fin n) :
    (arena.claim b i).instr j =
      if i = j then { arena.instr i with block := some b } else arena.instr j := by
  rw [claim, instr_modifyBlock, instr_modifyInstr]

@[simp] theorem owner_claim_self (arena : Arena n) (b : BlockId) (i : Fin n) :
    (arena.claim b i).owner i = some b := by
  simp [owner, instr_claim]

/-- The instruction that is claimed belongs to the block, the others to whom they did. -/
theorem owner_claim (arena : Arena n) (b : BlockId) (i j : Fin n) :
    (arena.claim b i).owner j = if i = j then some b else arena.owner j := by
  rw [owner, instr_claim]
  split <;> rfl

/-- The instruction that is claimed comes last in its block. -/
theorem instrs_claim (arena : Arena n) (b c : BlockId) (i : Fin n) :
    ((arena.claim b i).block c).instrs =
      if b = c ∧ b < arena.blocks.size then (arena.block b).instrs ++ [i]
      else (arena.block c).instrs := by
  unfold claim
  rw [block_modifyBlock, block_modifyInstr, block_modifyInstr, blocks_modifyInstr]
  grind

/-- Claiming an instruction changes no block but for the list of instructions. -/
theorem block_claim (arena : Arena n) (b c : BlockId) (i : Fin n) :
    (arena.claim b i).block c =
      { arena.block c with instrs := ((arena.claim b i).block c).instrs } := by
  unfold claim
  rw [block_modifyBlock, block_modifyInstr, block_modifyInstr, blocks_modifyInstr]
  split
  next same => rw [same.1]
  next => rfl

@[simp] theorem parents_claim (arena : Arena n) (b c : BlockId) (i : Fin n) :
    ((arena.claim b i).block c).parents = (arena.block c).parents := by
  rw [block_claim]

@[simp] theorem children_claim (arena : Arena n) (b c : BlockId) (i : Fin n) :
    ((arena.claim b i).block c).children = (arena.block c).children := by
  rw [block_claim]

@[simp] theorem kinds_claim (arena : Arena n) (b c : BlockId) (i : Fin n) :
    ((arena.claim b i).block c).kinds = (arena.block c).kinds := by
  rw [block_claim]

/-- The block that claims an instruction stays where it stands. -/
@[simp] theorem address_claim (arena : Arena n) (b c : BlockId) (i : Fin n) :
    (arena.claim b i).address c = arena.address c := by
  rw [address, block_claim, address]

@[simp] theorem size_claim (arena : Arena n) (b : BlockId) (i : Fin n) :
    (arena.claim b i).blocks.size = arena.blocks.size := by
  simp [claim]

/-- The number of instructions that no block owns. -/
def unowned (arena : Arena n) : Nat :=
  arena.instrs.toList.countP (·.block.isNone)

/-- Ownership is recorded with the instructions, so a change to a block takes none and gives
none. -/
@[simp] theorem unowned_modifyBlock (arena : Arena n) (b : BlockId)
    (change : Block n → Block n) :
    (arena.modifyBlock b change).unowned = arena.unowned := rfl

@[simp] theorem unowned_newBlock (arena : Arena n) (address : Address) :
    (arena.newBlock address).unowned = arena.unowned := rfl

@[simp] theorem unowned_addChild (arena : Arena n) (parent child : BlockId)
    (kind : EdgeKind) :
    (arena.addChild parent child kind).unowned = arena.unowned := rfl

/-- Claiming an instruction without an owner leaves one fewer of them. -/
theorem unowned_claim {arena : Arena n} {i : Fin n} (b : BlockId)
    (free : arena.owner i = none) :
    (arena.claim b i).unowned + 1 = arena.unowned := by
  have bound : (i : Nat) < arena.instrs.toList.length := by simp
  have here : arena.instrs.toList[(i : Nat)].block.isNone = true := by
    simpa [owner, instr] using free
  have counted : 0 < arena.instrs.toList.countP (·.block.isNone) :=
    List.countP_pos_iff.mpr ⟨_, List.getElem_mem bound, here⟩
  have after : (arena.claim b i).unowned =
      arena.instrs.toList.countP (·.block.isNone) - 1 := by
    simp only [unowned, claim, modifyBlock, modifyInstr, Vector.toList_set]
    rw [List.countP_set bound, if_pos here]
    simp
  rw [after, unowned, Nat.sub_add_cancel counted]

/-! ## Operations with a check -/

/-- Makes a change that gives an instruction an owner. The instruction must not have
one. -/
def unlessOwned (i : Fin n) (change : Arena n → Arena n) : Action n Unit := do
  let arena ← get
  match arena.owner i with
  | some owner =>
      throw (.claimed (arena.instr i).address (arena.address owner))
  | none => set (change arena)

/-- The change is made to an instruction without an owner only. -/
theorem unlessOwned_of_ok {i : Fin n} {change : Arena n → Arena n} {arena after : Arena n}
    (ran : unlessOwned i change arena = .ok () after) :
    arena.owner i = none ∧ after = change arena := by
  obtain ⟨_, _, ⟨⟩, ran⟩ := ok_of_bind ran
  cases owned : arena.owner i with
  | some owner => rw [owned] at ran; cases ran
  | none => rw [owned] at ran; cases ran; exact ⟨rfl, rfl⟩

/-- A change that is refused leaves the arena as it was. -/
theorem unlessOwned_of_error {i : Fin n} {change : Arena n → Arena n} {fault : Fault}
    {arena after : Arena n} (failed : unlessOwned i change arena = .error fault after) :
    after = arena := by
  rcases error_of_bind failed with read | ⟨_, _, ⟨⟩, failed⟩
  · cases read
  · cases owned : arena.owner i with
    | some owner => rw [owned] at failed; cases failed; rfl
    | none => rw [owned] at failed; cases failed

/-- Gives an instruction to a block, unless it has one. Taking the block of an
instruction that has none away is allowed and does nothing. -/
def setOwner (i : Fin n) (b : Option BlockId) : Action n Unit :=
  unlessOwned i (·.modifyInstr i ({ · with block := b }))

/-- Adds an instruction at the end of a block. The instruction must not have an
owner. -/
def addInstruction (b : BlockId) (i : Fin n) : Action n Unit :=
  unlessOwned i (·.claim b i)

/-- Changes the end of one list of a block, and nothing else. -/
def edit (b : BlockId) (change : Edit n) : Action n Unit := do
  match ((← get).block b).edit? change with
  | some block => modify (·.modifyBlock b fun _ => block)
  | none => throw .outOfRange

end Arena

end ScriptFlow
