import ScriptFlow.Address
import ScriptFlow.Block.Control
import ScriptFlow.Block.EdgeKind
import ScriptFlow.Sequence

/-!
Blocks: runs of instructions that are entered at the top only.

A block is plain data. `children` and `kinds` run side by side, and an edge is
recorded at both of its ends, but nothing in the type says so: an audit must be
able to look at blocks whose lists were changed one at a time (`Block.edit?`).
-/

namespace ScriptFlow

/-- A block over an arena of `n` instructions. -/
structure Block (n : Nat) where
  address : Address
  instrs : List (Fin n) := []
  /-- The blocks with an edge to this one, once for each edge. -/
  parents : List BlockId := []
  children : List BlockId := []
  /-- The kind of the edge to the child in the same place. -/
  kinds : List EdgeKind := []
  controls : List Control := []
  deriving DecidableEq, Repr

/-- A change at the end of one list of a block, with nothing else adjusted. -/
inductive Edit (n : Nat) where
  | pushInstr (instr : Fin n)
  | pushParent (parent : BlockId)
  | pushChild (child : BlockId)
  | pushKind (kind : EdgeKind)
  | popInstr
  | popParent
  | popChild
  | popKind
  deriving DecidableEq, Repr

namespace Block

variable {n : Nat}

/-- The block after an edit. Nothing can be popped from an empty list. -/
def edit? (block : Block n) : Edit n → Option (Block n)
  | .pushInstr instr => some { block with instrs := block.instrs ++ [instr] }
  | .pushParent parent => some { block with parents := block.parents ++ [parent] }
  | .pushChild child => some { block with children := block.children ++ [child] }
  | .pushKind kind => some { block with kinds := block.kinds ++ [kind] }
  | .popInstr => (Sequence.pop? block.instrs).map ({ block with instrs := · })
  | .popParent => (Sequence.pop? block.parents).map ({ block with parents := · })
  | .popChild => (Sequence.pop? block.children).map ({ block with children := · })
  | .popKind => (Sequence.pop? block.kinds).map ({ block with kinds := · })

/-! ## Control constructs -/

/-- The first construct recorded in which the block has the given role. -/
def control? (block : Block n) (role : ControlRole) : Option Control :=
  block.controls.find? fun control => control.role = role

/-- The construct of the loop that the block belongs to: that of the first loop
role it has, in the order of `ControlRole.loopRoles`. -/
def loop? (block : Block n) : Option Control :=
  ControlRole.loopRoles.findSome? block.control?

end Block

end ScriptFlow
