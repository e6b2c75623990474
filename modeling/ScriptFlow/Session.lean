import ScriptFlow.Analysis

/-!
Sessions: what a caller does with one arena, one change after the other.

A session holds the instructions and blocks, and the graphs and listings that the caller
has made over them so far. A change (`Mutation`) may fail, and what it has done until then
stays. A caller can only name what there is: a change that names a block, graph or listing
that does not exist is answered by a fault, and does nothing.
-/

namespace ScriptFlow

/-- An arena with the graphs and listings made over it, the oldest first. -/
structure Session (n : Nat) where
  arena : Arena n
  graphs : List Graph := []
  listings : List (Listing n) := []
  deriving DecidableEq

/-- A change that a caller may ask for. Graphs and listings are named by their place. -/
inductive Mutation (n : Nat) where
  /-- Makes a block that belongs to no graph. -/
  | addBlock (address : Address)
  /-- Starts an empty graph. -/
  | openGraph
  /-- Makes a block in a graph. -/
  | create (graph : Nat) (address : Address)
  | addChild (parent child : BlockId) (kind : EdgeKind)
  | addInstruction (block : BlockId) (instr : Fin n)
  /-- Gives an instruction to a block, or to none, without listing it. -/
  | setOwner (instr : Fin n) (block : Option BlockId)
  | addControl (block : BlockId) (control : Control)
  | openListing (instrs : List (Fin n))
  | link (listing : Nat)
  | construct (instrs : List (Fin n))
  /-- Analyses a sequence of instructions. -/
  | analyse (instrs : List (Fin n)) (options : Options)
  /-- Analyses a listing, which may be linked already. -/
  | analyseListing (listing : Nat) (options : Options)
  | tagDeadEdges (blocks : List BlockId)

namespace Session

variable {n : Nat}

/-- An operation on a session that may fail, and then leaves what it has done. -/
abbrev Action (n : Nat) := EStateM Fault (Session n)

/-- Runs an operation on the arena. -/
def onArena {α : Type} (action : ScriptFlow.Action n α) : Action n α := fun session =>
  match action session.arena with
  | .ok value arena => .ok value { session with arena }
  | .error fault arena => .error fault { session with arena }

/-- Runs an operation on a graph and the arena. -/
def onGraph {α : Type} (place : Nat) (action : EStateM Fault (Draft n) α) : Action n α :=
  fun session =>
    match session.graphs[place]? with
    | none => .error .outOfRange session
    | some graph =>
        match action { arena := session.arena, graph } with
        | .ok value draft => .ok value (put session draft)
        | .error fault draft => .error fault (put session draft)
where
  /-- The session with the arena and the graph of a draft. -/
  put (session : Session n) (draft : Draft n) : Session n :=
    { session with
      arena := draft.arena, graphs := session.graphs.set place draft.graph }

/-- Runs an operation on a listing and the arena. -/
def onListing {α : Type} (place : Nat) (action : EStateM Fault (Script n) α) : Action n α :=
  fun session =>
    match session.listings[place]? with
    | none => .error .outOfRange session
    | some listing =>
        match action { arena := session.arena, listing } with
        | .ok value script => .ok value (put session script)
        | .error fault script => .error fault (put session script)
where
  /-- The session with the arena and the listing of a script. -/
  put (session : Session n) (script : Script n) : Session n :=
    { session with
      arena := script.arena, listings := session.listings.set place script.listing }

/-- Runs an operation on the arena that names some blocks. -/
def naming (blocks : List BlockId) (action : ScriptFlow.Action n Unit) : Action n Unit :=
  fun session =>
    if ∀ b ∈ blocks, b < session.arena.blocks.size then onArena action session
    else .error .outOfRange session

/-- Keeps a graph. -/
def keepGraph (graph : Graph) : Action n Unit :=
  modify fun session => { session with graphs := session.graphs ++ [graph] }

/-- Keeps the listing of a sequence, if it is one. -/
def keepListing (instrs : List (Fin n)) : Action n Unit := fun session =>
  match Listing.ofList session.arena instrs with
  | .error fault => .error fault session
  | .ok listing => .ok () { session with listings := session.listings ++ [listing] }

end Session

namespace Mutation

open Session

variable {n : Nat}

/-- Carries out a change. -/
def run : Mutation n → Session.Action n Unit
  | addBlock address => onArena (modify (·.newBlock address))
  | openGraph => keepGraph {}
  | create graph address => do let _ ← onGraph graph (Draft.create address)
  | addChild parent child kind =>
      naming [parent, child] (modify (·.addChild parent child kind))
  | addInstruction block instr => naming [block] (Arena.addInstruction block instr)
  | setOwner instr block => naming block.toList (Arena.setOwner instr block)
  | addControl block control => naming [block] (modify (·.addControl block control))
  | openListing instrs => keepListing instrs
  | link listing => onListing listing Script.link
  | construct instrs => do keepGraph (← onArena (Graph.construct instrs))
  | analyse instrs options => do keepGraph (← onArena (ScriptFlow.analyse instrs options)).graph
  | analyseListing listing options => do
      keepGraph (← onListing listing (Script.analyse options)).graph
  | tagDeadEdges blocks => do let _ ← onArena (Arena.tagDeadEdges blocks)

end Mutation

/-- The session after some changes, each of which may have failed. -/
def Session.perform {n : Nat} (mutations : List (Mutation n)) (session : Session n) :
    Session n :=
  mutations.foldl (fun session mutation => left (mutation.run session)) session

end ScriptFlow
