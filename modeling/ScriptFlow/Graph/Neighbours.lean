import ScriptFlow.Arena

/-!
Questions about the edges of one block.

An edge is looked up by the child it leads to, so of several edges between two
blocks the first one answers. A block may be asked about any other; that there is
no edge between them, or that the list of edge kinds is too short to tell, is a
fault of the question.
-/

namespace ScriptFlow.Arena

variable {n : Nat}

/-- The place of a block among the children of another. -/
def childIndex? (arena : Arena n) (parent child : BlockId) : Option Nat :=
  (arena.block parent).children.idxOf? child

/-- The kind of the edge from a block to a child of it. -/
def edgeKind (arena : Arena n) (parent child : BlockId) : Except Fault EdgeKind :=
  match arena.childIndex? parent child with
  | none => .error (.notAnEdge (arena.address parent) (arena.address child))
  | some index =>
      match (arena.block parent).kinds[index]? with
      | none => .error .outOfRange
      | some kind => .ok kind

/-- The edge in the given place exists and is a call or stores a state. -/
def isSubroutineAt (arena : Arena n) (parent : BlockId) (index : Int) : Bool :=
  0 ≤ index &&
    (arena.block parent).kinds[index.toNat]?.any EdgeKind.isSubroutineCall

/-- The edge to a child is a call or stores a state. -/
def isSubroutineChild (arena : Arena n) (parent child : BlockId) :
    Except Fault Bool := do
  return (← arena.edgeKind parent child).isSubroutineCall

/-- The entries that `keep` accepts, in order; it is asked about one after the
other, and the first time it fails is the answer. -/
def keepEach (keep : BlockId → Except Fault Bool) :
    List BlockId → Except Fault (List BlockId)
  | [] => .ok []
  | b :: rest => do
      let kept ← keep b
      let others ← keepEach keep rest
      return if kept then b :: others else others

/-- The children for which `among` holds of their address, one entry for each
edge; those reached by a subroutine edge only if `subroutines` says so. -/
def selectChildren (arena : Arena n) (b : BlockId) (among : Address → Bool)
    (subroutines : Bool) : Except Fault (List BlockId) :=
  keepEach
    (fun child =>
      if subroutines then .ok true
      else (arena.isSubroutineChild b child).map (!·))
    ((arena.block b).children.filter fun child => among (arena.address child))

/-- The parents for which `among` holds of their address, one entry for each
edge; those with a subroutine edge to the block only if `subroutines` says so. -/
def selectParents (arena : Arena n) (b : BlockId) (among : Address → Bool)
    (subroutines : Bool) : Except Fault (List BlockId) :=
  keepEach
    (fun parent =>
      if subroutines then .ok true
      else (arena.isSubroutineChild parent b).map (!·))
    ((arena.block b).parents.filter fun parent => among (arena.address parent))

/-- The children that stand before a block. -/
def earlierChildren (arena : Arena n) (b : BlockId) (subroutines : Bool) :
    Except Fault (List BlockId) :=
  arena.selectChildren b (· < arena.address b) subroutines

/-- The children that do not stand before a block. -/
def laterChildren (arena : Arena n) (b : BlockId) (subroutines : Bool) :
    Except Fault (List BlockId) :=
  arena.selectChildren b (arena.address b ≤ ·) subroutines

/-- The parents that stand before a block. -/
def earlierParents (arena : Arena n) (b : BlockId) (subroutines : Bool) :
    Except Fault (List BlockId) :=
  arena.selectParents b (· < arena.address b) subroutines

/-- The parents that do not stand before a block. -/
def laterParents (arena : Arena n) (b : BlockId) (subroutines : Bool) :
    Except Fault (List BlockId) :=
  arena.selectParents b (arena.address b ≤ ·) subroutines

end ScriptFlow.Arena
