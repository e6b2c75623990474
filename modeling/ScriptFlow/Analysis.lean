import ScriptFlow.Graph.Audit
import ScriptFlow.Graph.Construction
import ScriptFlow.Graph.DeadEdge
import ScriptFlow.Listing
import ScriptFlow.Options

/-!
The analysis of a script: link its listing, construct the block graph, and run the
passes that the options ask for.

Besides the graph an analysis reports what it found on the way (`Event`), in order.
-/

namespace ScriptFlow

/-- Something that an analysis reports. -/
inductive Event where
  /-- A graph has been constructed. -/
  | constructed (blocks instrs : Nat) (start : Address)
  /-- An edge has been found dead. -/
  | deadEdge (source target : Address)
  /-- The graph is finished; the number of its edges of each kind is given. -/
  | finished (blocks deadEdges : Nat) (edges : List (EdgeKind × Nat))
  deriving DecidableEq, Repr

namespace Event

/-- The line for an event. -/
def message : Event → String
  | constructed blocks instrs start =>
      s!"constructed {blocks} blocks from {instrs} instructions starting at {Address.text start}"
  | deadEdge source target =>
      s!"edge {Address.text source} -> {Address.text target} is dead"
  | finished blocks deadEdges edges =>
      let counts := ", ".intercalate (edges.map count)
      s!"block graph: {blocks} blocks, {deadEdges} dead edges, edges \x7b{counts}\x7d"
where
  /-- The number of the edges of one kind. -/
  count (entry : EdgeKind × Nat) : String :=
    s!"'{entry.1.text}': {entry.2}"

end Event

/-- The result of an analysis. -/
structure Analysis where
  graph : Graph
  deadEdges : List DeadEdge
  events : List Event
  deriving DecidableEq, Repr

/-- A script: its instructions, their program order, and the blocks made of them. -/
structure Script (n : Nat) where
  arena : Arena n
  listing : Listing n
  deriving DecidableEq

variable {n : Nat}

/-- The edge kinds in a graph with the number of their edges, by name. -/
def Graph.edgeCounts (graph : Graph) (arena : Arena n) : List (EdgeKind × Nat) :=
  let kinds := graph.members.flatMap fun b => (arena.block b).kinds
  (EdgeKind.all.map fun kind => (kind, kinds.count kind)).filter fun entry => entry.2 ≠ 0

namespace Script

/-- Links the listing of a script. -/
def link : EStateM Fault (Script n) Unit := fun script =>
  match script.listing.link script.arena with
  | .ok listing arena => .ok () { arena, listing }
  | .error fault arena => .error fault { script with arena }

/-- Runs an operation on the arena of a script. -/
def onArena {α : Type} (action : Action n α) : EStateM Fault (Script n) α :=
  fun script =>
    match action script.arena with
    | .ok result arena => .ok result { script with arena }
    | .error fault arena => .error fault { script with arena }

/-- The events of a construction and of the passes after it. -/
def report (script : Script n) (graph : Graph) (deadEdges : List DeadEdge) :
    List Event :=
  let arena := script.arena
  (script.listing.items.take 1).map (fun first =>
      .constructed graph.members.length script.listing.items.length
        (arena.instr first).address) ++
    deadEdges.map (fun edge =>
      .deadEdge (arena.address edge.source) (arena.address edge.target)) ++
    [.finished graph.members.length deadEdges.length (graph.edgeCounts arena)]

/-- Marks the dead edges of a graph, if the options ask for it. -/
def tagDeadEdges (options : Options) (graph : Graph) : Action n (List DeadEdge) :=
  if options.findDeadEdges then Arena.tagDeadEdges graph.members else pure []

/-- Audits a graph, if the options ask for it. -/
def verify (options : Options) (graph : Graph) : Action n Unit :=
  if options.verify then Arena.verify graph.members else pure ()

/-- Analyses a script. Its listing is linked if it is not, and stays so even if a
later pass fails. -/
def analyse (options : Options) : EStateM Fault (Script n) Analysis := do
  link
  let items := (← get).listing.items
  let graph ← onArena (Graph.construct items)
  let deadEdges ← onArena (tagDeadEdges options graph)
  onArena (verify options graph)
  return { graph, deadEdges, events := (← get).report graph deadEdges }

end Script

/-- Analyses a sequence of instructions, which must form a listing. -/
def analyse (instrs : List (Fin n)) (options : Options := {}) : Action n Analysis :=
  fun arena =>
    match Listing.ofList arena instrs with
    | .error fault => .error fault arena
    | .ok listing =>
        match Script.analyse options { arena, listing } with
        | .ok result script => .ok result script.arena
        | .error fault script => .error fault script.arena

end ScriptFlow
