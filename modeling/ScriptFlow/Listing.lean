import ScriptFlow.Arena

/-!
Listings: the instructions of one script in program order.

Decoding leaves each instruction with the addresses it branches to. Linking a
listing (`Listing.link`) turns them into references, gives every instruction its
follower, and marks the leaders: the first instruction, which enters the main
subroutine, and every destination of a branch.
-/

namespace ScriptFlow

/-- Instructions of a script in program order. -/
structure Listing (n : Nat) where
  items : List (Fin n)
  /-- Followers and branches of the instructions are known. -/
  linked : Bool
  deriving DecidableEq, Repr

namespace Listing

variable {n : Nat}

/-- The first item that does not stand above the one before it, and the address
of that one. -/
def misplaced? (arena : Arena n) : List (Fin n) → Option (Fin n × Address)
  | i :: j :: rest =>
      if (arena.instr j).address ≤ (arena.instr i).address then
        some (j, (arena.instr i).address)
      else misplaced? arena (j :: rest)
  | _ => none

/-- The listing of a sequence of instructions, whose addresses must rise. If any
of them is resolved, whoever decoded them has linked them already. -/
def ofList (arena : Arena n) (items : List (Fin n)) : Except Fault (Listing n) :=
  match misplaced? arena items with
  | some (i, previous) => .error ((arena.instr i).fault (.outOfOrder previous))
  | none => .ok { items, linked := items.any fun i => (arena.instr i).isResolved }

/-- The item at an address. -/
def find? (listing : Listing n) (arena : Arena n) (address : Address) :
    Option (Fin n) :=
  listing.items.find? fun i => (arena.instr i).address = address

/-- The item at a place in program order. -/
def at? (listing : Listing n) (place : Int) : Option (Fin n) :=
  Sequence.at? listing.items place

/-! ## Linking -/

/-- Makes each item the follower of the one before it. The last item keeps the
follower it has. -/
def chain (items : List (Fin n)) (arena : Arena n) : Arena n :=
  (items.zip items.tail).foldl
    (fun arena (i, next) => arena.modifyInstr i ({ · with follower := some next }))
    arena

/-- Marks an instruction as used in a further way, if there is one. -/
def stamp (i : Fin n) (kind : Option AddressKind) (arena : Arena n) : Arena n :=
  match kind with
  | none => arena
  | some kind =>
      arena.modifyInstr i fun instr =>
        { instr with kind := instr.kind.strongest kind }

/-- Marks the first item as the entry of a subroutine. -/
def stampEntry (listing : Listing n) (arena : Arena n) : Arena n :=
  match listing.items with
  | [] => arena
  | first :: _ => stamp first (some .subroutine) arena

/-- The item at a target of `instr`. -/
def destination (listing : Listing n) (instr : Instruction n) (target : Address) :
    Action n (Fin n) := do
  match listing.find? (← get) target with
  | some i => return i
  | none => throw (instr.fault (.unresolvedTarget target))

/-- The items at targets of `instr`, in order. Each is marked with the use that the
operation makes of it; at the first target without an item the search stops, and
the marks made so far remain. -/
def destinations (listing : Listing n) (instr : Instruction n) :
    List Address → Action n (List (Fin n))
  | [] => pure []
  | target :: rest => do
      let i ← listing.destination instr target
      modify (stamp i instr.opcode.branchKind?)
      let others ← listing.destinations instr rest
      return i :: others

/-- The item that runs after `instr` if it decides not to jump. -/
def fallThrough (instr : Instruction n) : List (Fin n) :=
  if instr.opcode.isConditional then instr.follower.toList else []

/-- Gives an item its branches: the items at its targets, and after those of a
conditional jump its follower. -/
def resolve (listing : Listing n) (i : Fin n) : Action n Unit := do
  let instr := (← get).instr i
  let reached ← listing.destinations instr instr.targets
  modify (·.modifyInstr i ({ · with branches := reached ++ fallThrough instr }))

/-- Gives items their branches, one after the other. -/
def resolveAll (listing : Listing n) : List (Fin n) → Action n Unit
  | [] => pure ()
  | i :: rest => do
      listing.resolve i
      listing.resolveAll rest

/-- Links a listing. One that is linked already is left as it is. -/
def link (listing : Listing n) : Action n (Listing n) :=
  if listing.linked then pure listing
  else do
    modify (chain listing.items)
    modify listing.stampEntry
    listing.resolveAll listing.items
    return { listing with linked := true }

end Listing

end ScriptFlow
