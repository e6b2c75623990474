import ScriptFlow.Arena

/-!
The audit of a block graph.

`Arena.audit` reports every problem in the structure of the given blocks: first
the addresses they share, then what is wrong with one block after the other. Given
a sequence of instructions as well, it goes on to report those that no block
covers, and the blocks that hold no consecutive run of them.
-/

namespace ScriptFlow.Arena

variable {n : Nat}

/-! ## Single blocks -/

/-- A line for an address at which several blocks stand, by rising address. -/
def auditAddresses (arena : Arena n) (blocks : List BlockId) : List Problem :=
  let addresses := blocks.map arena.address
  (addresses.eraseDups.mergeSort (· ≤ ·)).filterMap fun address =>
    let count := addresses.count address
    if 1 < count then some (.sharedAddress count address) else none

/-- A block has an instruction, and stands where the first one does. -/
def auditStart (arena : Arena n) (b : BlockId) : List Problem :=
  match (arena.block b).instrs with
  | [] => [.noInstructions (arena.address b)]
  | first :: _ =>
      if (arena.instr first).address = arena.address b then []
      else [.startsAt (arena.address b) (arena.instr first).address]

/-- A block has as many edge kinds as children. -/
def auditKinds (arena : Arena n) (b : BlockId) : List Problem :=
  let block := arena.block b
  if block.children.length = block.kinds.length then []
  else [.edgeKindCount block.address block.children.length block.kinds.length]

/-- A child is one of the given blocks, and knows as many edges from its parent as
the parent does. -/
def auditChild (arena : Arena n) (blocks : List BlockId) (b child : BlockId) :
    List Problem :=
  (if child ∈ blocks then []
    else [.foreignChild (arena.address b) (arena.address child)]) ++
  (if (arena.block child).parents.count b = (arena.block b).children.count child then []
    else [.edgeMismatch (arena.address b) (arena.address child)])

/-- A parent has the block among its children. -/
def auditParent (arena : Arena n) (b parent : BlockId) : List Problem :=
  if b ∈ (arena.block parent).children then []
  else [.foreignParent (arena.address b) (arena.address parent)]

/-- The problems of the edges that a block records. -/
def auditEdges (arena : Arena n) (blocks : List BlockId) (b : BlockId) : List Problem :=
  arena.auditKinds b ++
    (arena.block b).children.flatMap (arena.auditChild blocks b) ++
    (arena.block b).parents.flatMap (arena.auditParent b)

/-! ## Ownership -/

/-- An instruction as an entry in the list of a block. -/
abbrev Entry (n : Nat) := Fin n × BlockId

/-- The entries of a block, in order. -/
def entries (arena : Arena n) (b : BlockId) : List (Entry n) :=
  (arena.block b).instrs.map ((·, b))

/-- The block that lists an instruction, by the first entry for it. -/
def listedBy? (seen : List (Entry n)) (i : Fin n) : Option BlockId :=
  (seen.find? fun entry => entry.1 = i).map (·.2)

/-- An instruction belongs to the block that lists it, and is listed once. The
entries seen before are given with the latest first. -/
def auditEntry (arena : Arena n) (seen : List (Entry n)) (entry : Entry n) :
    List Problem :=
  let (i, b) := entry
  let address := (arena.instr i).address
  (if arena.owner i = some b then []
    else [.pointsElsewhere address (arena.address b)]) ++
  match listedBy? seen i with
  | none => []
  | some first => [.claimedTwice address (arena.address first) (arena.address b)]

/-- The problems of entries that follow those already seen. -/
def auditEntries (arena : Arena n) (seen : List (Entry n)) :
    List (Entry n) → List Problem
  | [] => []
  | entry :: rest =>
      arena.auditEntry seen entry ++ arena.auditEntries (entry :: seen) rest

/-- The problems of some of the given blocks, after those whose entries have been
seen. -/
def auditBlocks (arena : Arena n) (blocks : List BlockId) (seen : List (Entry n)) :
    List BlockId → List Problem
  | [] => []
  | b :: rest =>
      arena.auditStart b ++ arena.auditEdges blocks b ++
        arena.auditEntries seen (arena.entries b) ++
        arena.auditBlocks blocks ((arena.entries b).reverse ++ seen) rest

/-! ## Coverage -/

/-- The place of an instruction in a sequence; the last one, if it is repeated. -/
def position? (sequence : List (Fin n)) (i : Fin n) : Option Nat :=
  (sequence.zipIdx.reverse.find? fun entry => entry.1 = i).map (·.2)

/-- A block holds instructions of the sequence only, and these in one run. -/
def auditRun (arena : Arena n) (sequence : List (Fin n)) (b : BlockId) :
    List Problem :=
  match (arena.block b).instrs.mapM (position? sequence) with
  | none => [.foreignInstructions (arena.address b)]
  | some [] => []
  | some (first :: rest) =>
      if rest = List.range' (first + 1) rest.length then []
      else [.scattered (arena.address b)]

/-- The problems that blocks have with a sequence they are to cover. -/
def auditCoverage (arena : Arena n) (blocks : List BlockId) (sequence : List (Fin n)) :
    List Problem :=
  let listed := blocks.flatMap fun b => (arena.block b).instrs
  (sequence.filter (· ∉ listed)).map (fun i => .uncovered (arena.instr i).address) ++
    blocks.flatMap (arena.auditRun sequence)

/-! ## The whole audit -/

/-- Every problem of the given blocks, which are to cover the sequence if there is
one. -/
def audit (arena : Arena n) (blocks : List BlockId)
    (sequence : Option (List (Fin n)) := none) : List Problem :=
  arena.auditAddresses blocks ++ arena.auditBlocks blocks [] blocks ++
    match sequence with
    | none => []
    | some sequence => arena.auditCoverage blocks sequence

/-- Fails with the problems of the given blocks, if they have any. -/
def verify (blocks : List BlockId) (sequence : Option (List (Fin n)) := none) :
    Action n Unit := do
  match (← get).audit blocks sequence with
  | [] => return ()
  | problems => throw (.inconsistent problems)

end ScriptFlow.Arena
