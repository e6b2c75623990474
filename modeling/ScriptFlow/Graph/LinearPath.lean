import ScriptFlow.Arena

/-!
Linear paths: walks along edges from a block to a later one that never pass the
address they are going to.

The search is depth first. It looks at a block once, so the edges still to be
followed are those of the blocks not visited yet (`Arena.unexplored`), and with
the blocks that wait to be looked at they grow fewer at every step.
-/

namespace ScriptFlow.Arena

variable {n : Nat}

/-- The number of edges that leave a block, unless it has been visited. -/
def freshDegree (arena : Arena n) (visited : List BlockId) (b : BlockId) : Nat :=
  if b ∈ visited then 0 else (arena.block b).children.length

/-- The number of edges that leave some blocks, those that have been visited left
out. -/
def freshDegrees (arena : Arena n) (visited : List BlockId) : List BlockId → Nat
  | [] => 0
  | b :: rest => arena.freshDegree visited b + arena.freshDegrees visited rest

/-- The number of edges that leave the blocks not visited yet. -/
def unexplored (arena : Arena n) (visited : List BlockId) : Nat :=
  arena.freshDegrees visited (List.range arena.blocks.size)

/-- One more visit leaves no more edges to follow. -/
theorem freshDegree_cons_le (arena : Arena n) (visited : List BlockId)
    (b c : BlockId) :
    arena.freshDegree (b :: visited) c ≤ arena.freshDegree visited c := by
  unfold freshDegree
  by_cases same : c = b <;> by_cases seen : c ∈ visited <;> simp [same, seen]

private theorem freshDegrees_cons_le (arena : Arena n) (visited : List BlockId)
    (b : BlockId) (among : List BlockId) :
    arena.freshDegrees (b :: visited) among ≤ arena.freshDegrees visited among := by
  induction among with
  | nil => exact Nat.le_refl 0
  | cons c rest ih =>
      have here := arena.freshDegree_cons_le visited b c
      rw [freshDegrees, freshDegrees]
      omega

/-- Visiting a block for the first time pays for the edges that leave it. -/
private theorem freshDegrees_cons_add_le (arena : Arena n)
    {visited : List BlockId} {b : BlockId} (fresh : b ∉ visited)
    {among : List BlockId} (present : b ∈ among) :
    arena.freshDegrees (b :: visited) among + (arena.block b).children.length ≤
      arena.freshDegrees visited among := by
  induction among with
  | nil => cases present
  | cons c rest ih =>
      rw [freshDegrees, freshDegrees]
      rcases List.mem_cons.mp present with same | later
      · subst same
        have others := arena.freshDegrees_cons_le visited b rest
        simp only [freshDegree, List.mem_cons, true_or, if_true, if_neg fresh]
        omega
      · have here := arena.freshDegree_cons_le visited b c
        have others := ih later
        omega

/-- Visiting a block for the first time takes its edges off the count. -/
theorem unexplored_cons_add_le (arena : Arena n) {visited : List BlockId}
    {b : BlockId} (fresh : b ∉ visited) :
    arena.unexplored (b :: visited) + (arena.block b).children.length ≤
      arena.unexplored visited := by
  by_cases bound : b < arena.blocks.size
  · exact arena.freshDegrees_cons_add_le fresh (List.mem_range.mpr bound)
  · rw [block_of_size_le (Nat.le_of_not_lt bound)]
    exact arena.freshDegrees_cons_le visited b _

/-- Some block at address `goal` is reached from a pending block without going
through a visited block or one past the goal. -/
def reaches (arena : Arena n) (goal : Address) (visited pending : List BlockId) :
    Bool :=
  match pending with
  | [] => false
  | b :: rest =>
      if arena.address b = goal then true
      else if _ : goal < arena.address b ∨ b ∈ visited then
        arena.reaches goal visited rest
      else arena.reaches goal (b :: visited) ((arena.block b).children ++ rest)
termination_by arena.unexplored visited + pending.length
decreasing_by
  · simp only [List.length_cons]
    omega
  · rename_i passed
    have fewer := arena.unexplored_cons_add_le (fun seen => passed (Or.inr seen))
    simp only [List.length_append, List.length_cons]
    omega

/-- A linear path leads from the block with the lower address to the other one.
Of two blocks at one address the first is where the path starts. -/
def hasLinearPath (arena : Arena n) (b c : BlockId) : Bool :=
  if arena.address b ≤ arena.address c then arena.reaches (arena.address c) [] [b]
  else arena.reaches (arena.address b) [] [c]

end ScriptFlow.Arena
