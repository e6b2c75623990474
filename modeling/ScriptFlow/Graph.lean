import ScriptFlow.Arena

/-!
Block graphs: the blocks of one pass over a script, at most one at an address.

A graph lists its blocks in the order in which they were created. The order of
addresses is a second view of it, computed when it is asked for: as a whole
(`Graph.ordered`), and around one block (`Graph.next?`, `Graph.previous?`), which
need not belong to the graph.
-/

namespace ScriptFlow

/-- The blocks of one pass, in the order of their creation. -/
structure Graph where
  members : List BlockId := []
  deriving DecidableEq, Repr

/-- A graph under construction, with the arena that its blocks live in. -/
structure Draft (n : Nat) where
  arena : Arena n
  graph : Graph := {}
  deriving DecidableEq

namespace Graph

variable {n : Nat}

/-- The block at an address. -/
def get? (graph : Graph) (arena : Arena n) (address : Address) : Option BlockId :=
  graph.members.find? fun b => arena.address b = address

/-- The blocks by rising address. -/
def ordered (graph : Graph) (arena : Arena n) : List BlockId :=
  graph.members.mergeSort fun b c => arena.address b ≤ arena.address c

/-- The block at a place in the order of creation. -/
def at? (graph : Graph) (place : Int) : Option BlockId :=
  Sequence.at? graph.members place

/-- Of a current choice and one more candidate, the candidate if it qualifies and
is better. -/
def improve (qualifies : BlockId → Bool) (better : BlockId → BlockId → Bool)
    (choice : Option BlockId) (candidate : BlockId) : Option BlockId :=
  if qualifies candidate && choice.all (better candidate) then some candidate
  else choice

/-- The block with the least address above that of `b`. -/
def next? (graph : Graph) (arena : Arena n) (b : BlockId) : Option BlockId :=
  graph.members.foldl
    (improve (fun c => arena.address b < arena.address c)
      (fun c d => arena.address c < arena.address d))
    none

/-- The block with the greatest address below that of `b`. -/
def previous? (graph : Graph) (arena : Arena n) (b : BlockId) : Option BlockId :=
  graph.members.foldl
    (improve (fun c => arena.address c < arena.address b)
      (fun c d => arena.address d < arena.address c))
    none

/-- In order or not, the blocks are the same. -/
theorem ordered_perm (graph : Graph) (arena : Arena n) :
    (graph.ordered arena).Perm graph.members :=
  List.mergeSort_perm ..

theorem mem_ordered {graph : Graph} {arena : Arena n} {b : BlockId} :
    b ∈ graph.ordered arena ↔ b ∈ graph.members :=
  List.mem_mergeSort

/-- Where no two blocks have the same address, the addresses rise strictly. -/
theorem pairwise_ordered {graph : Graph} {arena : Arena n}
    (distinct : graph.members.Pairwise fun b c => arena.address b ≠ arena.address c) :
    (graph.ordered arena).Pairwise fun b c => arena.address b < arena.address c := by
  have sorted : (graph.ordered arena).Pairwise fun b c =>
      arena.address b ≤ arena.address c := by
    refine (List.pairwise_mergeSort ?_ ?_ graph.members).imp (by simp)
    · intro b c d low high
      simp only [decide_eq_true_eq] at low high ⊢
      exact Int.le_trans low high
    · intro b c
      simpa using Int.le_total (arena.address b) (arena.address c)
  have apart : (graph.ordered arena).Pairwise fun b c =>
      arena.address b ≠ arena.address c :=
    ((ordered_perm graph arena).pairwise_iff Ne.symm).mpr distinct
  apply (sorted.and apart).imp
  intro b c both
  exact Int.lt_iff_le_and_ne.mpr both

end Graph

namespace Draft

variable {n : Nat}

/-- Adds a block at an address that has none yet. -/
def create (address : Address) : EStateM Fault (Draft n) BlockId := fun draft =>
  match draft.graph.get? draft.arena address with
  | some _ => .error (.duplicateBlock address) draft
  | none =>
      let b := draft.arena.blocks.size
      .ok b { arena := draft.arena.newBlock address,
              graph := { members := draft.graph.members ++ [b] } }

/-- Records an edge at both of its ends. -/
def addChild (draft : Draft n) (parent child : BlockId) (kind : EdgeKind) : Draft n :=
  { draft with arena := draft.arena.addChild parent child kind }

/-- Lists an instruction in a block and makes the block its owner. -/
def claim (draft : Draft n) (b : BlockId) (i : Fin n) : Draft n :=
  { draft with arena := draft.arena.claim b i }

@[simp] theorem arena_addChild (draft : Draft n) (parent child : BlockId)
    (kind : EdgeKind) :
    (draft.addChild parent child kind).arena = draft.arena.addChild parent child kind :=
  rfl

@[simp] theorem graph_addChild (draft : Draft n) (parent child : BlockId)
    (kind : EdgeKind) : (draft.addChild parent child kind).graph = draft.graph := rfl

@[simp] theorem arena_claim (draft : Draft n) (b : BlockId) (i : Fin n) :
    (draft.claim b i).arena = draft.arena.claim b i := rfl

@[simp] theorem graph_claim (draft : Draft n) (b : BlockId) (i : Fin n) :
    (draft.claim b i).graph = draft.graph := rfl

/-- The block that is created is a new one, and comes last in the graph. -/
theorem create_of_ok {address : Address} {draft after : Draft n} {b : BlockId}
    (created : create address draft = .ok b after) :
    b = draft.arena.blocks.size ∧
      after.arena = draft.arena.newBlock address ∧
      after.graph.members = draft.graph.members ++ [b] := by
  unfold create at created
  split at created <;> cases created
  exact ⟨rfl, rfl, rfl⟩

/-- A block is created only at an address at which the graph has none. -/
theorem vacant_of_create {address : Address} {draft after : Draft n} {b : BlockId}
    (created : create address draft = .ok b after) :
    ∀ c ∈ draft.graph.members, draft.arena.address c ≠ address := by
  unfold create at created
  split at created
  next => cases created
  next absent => simpa [Graph.get?] using absent

/-- A block is refused only where there is one. -/
theorem taken_of_create {address : Address} {draft after : Draft n} {fault : Fault}
    (failed : create address draft = .error fault after) :
    ∃ b ∈ draft.graph.members, draft.arena.address b = address := by
  unfold create at failed
  split at failed
  next b found =>
    have there := List.find?_some found
    exact ⟨b, List.mem_of_find?_eq_some found, of_decide_eq_true there⟩
  next => cases failed

/-- A creation that fails changes nothing. -/
theorem create_of_error {address : Address} {draft after : Draft n} {fault : Fault}
    (failed : create address draft = .error fault after) :
    fault = .duplicateBlock address ∧ after = draft := by
  unfold create at failed
  split at failed <;> cases failed
  exact ⟨rfl, rfl⟩

end Draft

end ScriptFlow
