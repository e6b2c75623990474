import ScriptFlow.Graph.Neighbours

/-!
Edges that are never taken.

A condition `x || y` compiles into one block for each operand, and each of them
doubles the value on top of the stack and tests the copy. A block that does only
that tests its operand again if every way into it comes from such a test through
the same edge; the value is then known, and the other edge of the block is dead.

The pattern is matched by its instructions alone. It finds most dead edges of
this kind, and no others.
-/

namespace ScriptFlow

/-- An edge that is never taken: the block it leaves, its place among the edges
of that block, and the block it leads to. -/
structure DeadEdge where
  source : BlockId
  slot : Nat
  target : BlockId
  deriving DecidableEq, Repr

namespace Arena

variable {n : Nat}

/-- A block with two children that ends in doubling the top of the stack and a
`JZ` on the copy. -/
def isTopStackJumper (arena : Arena n) (b : BlockId) : Bool :=
  match (arena.block b).instrs.reverse with
  | last :: doubler :: _ =>
      (arena.block b).children.length = 2 &&
        (arena.instr doubler).isStackDoubler && (arena.instr last).opcode = .jz
  | _ => false

/-- The edge through which a parent that tests the top of the stack enters a
block. -/
def entrySlot? (arena : Arena n) (b parent : BlockId) : Option Nat :=
  if arena.isTopStackJumper parent then arena.childIndex? parent b else none

/-- The edge through which every parent enters a block, if all of them test the
top of the stack and agree on it. -/
def sharedSlot? (arena : Arena n) (b : BlockId) : Option Nat :=
  match (arena.block b).parents with
  | [] => none
  | first :: rest => do
      let slot ← arena.entrySlot? b first
      if rest.all fun parent => arena.entrySlot? b parent = some slot then
        some slot
      else none

/-- The dead edge of a block that only tests again what its parents tested. -/
def deadEdge? (arena : Arena n) (b : BlockId) : Option DeadEdge :=
  if arena.isTopStackJumper b && (arena.block b).instrs.length = 2 then do
    let slot := 1 - (← arena.sharedSlot? b)
    let target ← (arena.block b).children[slot]?
    return { source := b, slot, target }
  else none

/-- Changes the kind of one edge of a block. -/
def setKind (arena : Arena n) (b : BlockId) (slot : Nat) (kind : EdgeKind) : Arena n :=
  arena.modifyBlock b fun block => { block with kinds := block.kinds.set slot kind }

/-- Marks the dead edge of a block, if it has one. -/
def tagDeadEdge (b : BlockId) : Action n (Option DeadEdge) := do
  let arena ← get
  match arena.deadEdge? b with
  | none => return none
  | some edge =>
      if edge.slot < (arena.block b).kinds.length then
        set (arena.setKind b edge.slot .dead)
        return some edge
      else throw .outOfRange

/-- Marks the dead edges of blocks, one block after the other, and returns them. -/
def tagDeadEdges : List BlockId → Action n (List DeadEdge)
  | [] => pure []
  | b :: rest => do
      let edge ← tagDeadEdge b
      let others ← tagDeadEdges rest
      return edge.toList ++ others

end Arena

end ScriptFlow
