import Mathlib.Data.List.Chain
import Mathlib.Logic.Relation
import ScriptFlow.Graph.LinearPath

/-!
# Linear paths

A linear path goes from block to block along edges and stays below an address until its last
block, which stands there (`Arena.LinearPath`). It may have no edge at all.

The search looks at one waiting block after the other. Written as a relation (`Arena.Look`),
each look leaves less to do than there was, so a search looks no more often than there are
edges, and once more for the block it starts with.

What a search that has visited some blocks finds are the paths that do not pass these again
(`Arena.FreshPath`, `reaches_eq_true_iff`). Nothing is lost by that: a path that passes a
block just visited can be cut behind the last time it does, and goes on from one of the
children that have been put in front (`FreshPath.cut`).
-/

namespace ScriptFlow.Arena

variable {n : Nat} {arena : Arena n} {goal : Address} {visited : List BlockId} {b c : BlockId}

/-! ## Paths -/

/-- An edge of a path to `goal`: it leaves a block that stands below. -/
structure Ascends (arena : Arena n) (goal : Address) (b c : BlockId) : Prop where
  below : arena.address b < goal
  child : c ∈ (arena.block b).children

/-- A path of edges leads from `b` to a block at `goal`, and all before that one stand
below. -/
def LinearPath (arena : Arena n) (goal : Address) (b : BlockId) : Prop :=
  ∃ last, Relation.ReflTransGen (arena.Ascends goal) b last ∧ arena.address last = goal

/-- Such a path, of which no block but the last one has been visited. -/
def FreshPath (arena : Arena n) (goal : Address) (visited : List BlockId) (b : BlockId) : Prop :=
  ∃ last, Relation.ReflTransGen (fun c d => c ∉ visited ∧ arena.Ascends goal c d) b last ∧
    arena.address last = goal

/-- Before anything has been visited, every path is fresh. -/
theorem freshPath_nil_iff : arena.FreshPath goal [] b ↔ arena.LinearPath goal b := by
  simp only [FreshPath, LinearPath, List.not_mem_nil, not_false_eq_true, true_and]

theorem FreshPath.of_goal (here : arena.address b = goal) : arena.FreshPath goal visited b :=
  ⟨b, .refl, here⟩

/-- A path may start at a block that has not been visited, and stands below the goal. -/
theorem FreshPath.head (fresh : b ∉ visited) (below : arena.address b < goal)
    (child : c ∈ (arena.block b).children) (path : arena.FreshPath goal visited c) :
    arena.FreshPath goal visited b := by
  obtain ⟨last, path, there⟩ := path
  exact ⟨last, .head ⟨fresh, below, child⟩ path, there⟩

/-- A path from a block that is not at the goal starts with an edge. -/
theorem FreshPath.leaves (path : arena.FreshPath goal visited b)
    (elsewhere : arena.address b ≠ goal) : b ∉ visited ∧ arena.address b < goal := by
  obtain ⟨last, path, there⟩ := path
  rcases path.cases_head with rfl | ⟨c, ⟨fresh, edge⟩, -⟩
  · exact (elsewhere there).elim
  · exact ⟨fresh, edge.below⟩

theorem FreshPath.forget (path : arena.FreshPath goal (b :: visited) c) :
    arena.FreshPath goal visited c := by
  obtain ⟨last, path, there⟩ := path
  refine ⟨last, Relation.ReflTransGen.mono ?_ _ _ path, there⟩
  rintro d e ⟨fresh, edge⟩
  exact ⟨fun seen => fresh (List.mem_cons_of_mem b seen), edge⟩

/-- A path does not pass `b`, or it can be cut to one that starts with a child of `b` and does
not pass it. -/
theorem FreshPath.cut (path : arena.FreshPath goal visited c) (b : BlockId) :
    arena.FreshPath goal (b :: visited) c ∨
      ∃ d ∈ (arena.block b).children, arena.FreshPath goal (b :: visited) d := by
  obtain ⟨last, path, there⟩ := path
  induction path using Relation.ReflTransGen.head_induction_on with
  | refl => exact .inl (.of_goal there)
  | @head c d step _ ih =>
      obtain ⟨fresh, below, child⟩ := step
      rcases ih with path | later
      · by_cases same : c = b
        · exact .inr ⟨d, same ▸ child, path⟩
        · have unseen : c ∉ b :: visited := List.not_mem_cons_of_ne_of_not_mem same fresh
          exact .inl (.head unseen below child path)
      · exact .inr later

/-- **The search is exact.** It succeeds just if a path leads from one of the waiting blocks to
the goal without passing a visited one. -/
theorem reaches_eq_true_iff (arena : Arena n) (goal : Address) (visited pending : List BlockId) :
    arena.reaches goal visited pending = true ↔
      ∃ b ∈ pending, arena.FreshPath goal visited b := by
  fun_induction Arena.reaches arena goal visited pending with
  | case1 visited => simp
  | case2 visited b rest here =>
      exact iff_of_true rfl ⟨b, List.mem_cons_self, .of_goal here⟩
  | case3 visited b rest elsewhere passed ih =>
      rw [ih]
      constructor
      · rintro ⟨c, waits, path⟩
        exact ⟨c, List.mem_cons_of_mem b waits, path⟩
      · rintro ⟨c, waits, path⟩
        rcases List.mem_cons.mp waits with rfl | later
        · obtain ⟨fresh, below⟩ := path.leaves elsewhere
          exact (passed.elim (fun above => Int.lt_asymm above below) fresh).elim
        · exact ⟨c, later, path⟩
  | case4 visited b rest elsewhere ahead ih =>
      rw [not_or, Int.not_lt] at ahead
      obtain ⟨reachable, fresh⟩ := ahead
      have below : arena.address b < goal := Int.lt_iff_le_and_ne.mpr ⟨reachable, elsewhere⟩
      rw [ih]
      constructor
      · rintro ⟨c, waits, path⟩
        rcases List.mem_append.mp waits with child | later
        · exact ⟨b, List.mem_cons_self, .head fresh below child path.forget⟩
        · exact ⟨c, List.mem_cons_of_mem b later, path.forget⟩
      · rintro ⟨c, waits, path⟩
        rcases path.cut b with kept | ⟨d, child, kept⟩
        · rcases List.mem_cons.mp waits with rfl | later
          · exact ((kept.leaves elsewhere).1 List.mem_cons_self).elim
          · exact ⟨c, List.mem_append_right _ later, kept⟩
        · exact ⟨d, List.mem_append_left _ child, kept⟩

/-! ## Looks -/

/-- A search between two looks: the blocks it has visited, and those that wait. -/
structure Search where
  visited : List BlockId
  pending : List BlockId

/-- A look at the next block, which is not at the goal. -/
inductive Look (arena : Arena n) (goal : Address) : Search → Search → Prop
  | skip {visited rest : List BlockId} {b : BlockId} :
    arena.address b ≠ goal → goal < arena.address b ∨ b ∈ visited →
    Look arena goal ⟨visited, b :: rest⟩ ⟨visited, rest⟩
  | visit {visited rest : List BlockId} {b : BlockId} :
    arena.address b < goal → b ∉ visited →
    Look arena goal ⟨visited, b :: rest⟩ ⟨b :: visited, (arena.block b).children ++ rest⟩

/-- A search that is over, and its answer. -/
inductive Over (arena : Arena n) (goal : Address) : Search → Bool → Prop
  | found {visited rest : List BlockId} {b : BlockId} :
    arena.address b = goal → Over arena goal ⟨visited, b :: rest⟩ true
  | exhausted {visited : List BlockId} : Over arena goal ⟨visited, []⟩ false

/-- A bound on the looks that a search has still to take. -/
def remaining (arena : Arena n) (search : Search) : Nat :=
  arena.unexplored search.visited + search.pending.length

/-- Each look leaves fewer looks to take. -/
theorem Look.remaining_lt {search next : Search} (look : arena.Look goal search next) :
    arena.remaining next < arena.remaining search := by
  cases look with
  | skip => exact Nat.lt_succ_self _
  | visit below fresh =>
      have fewer := arena.unexplored_cons_add_le fresh
      simp only [remaining, List.length_append, List.length_cons]
      omega

/-- **The search ends.** However it goes on, the looks it takes are bounded. -/
theorem length_le_remaining {search : Search} {looks : List Search}
    (run : (search :: looks).IsChain (arena.Look goal)) :
    looks.length ≤ arena.remaining search := by
  induction looks generalizing search with
  | nil => exact Nat.zero_le _
  | cons next rest ih =>
      obtain ⟨look, later⟩ := List.isChain_cons_cons.mp run
      have fewer := look.remaining_lt
      have bound := ih later
      rw [List.length_cons]
      omega

/-- A search goes on until it is over, and the answer is the one computed. -/
theorem over_of_reaches (arena : Arena n) (goal : Address) (visited pending : List BlockId) :
    ∃ last, Relation.ReflTransGen (arena.Look goal) ⟨visited, pending⟩ last ∧
      arena.Over goal last (arena.reaches goal visited pending) := by
  fun_induction Arena.reaches arena goal visited pending with
  | case1 visited => exact ⟨_, .refl, .exhausted⟩
  | case2 visited b rest here => exact ⟨_, .refl, .found here⟩
  | case3 visited b rest elsewhere passed ih =>
      obtain ⟨last, looks, stops⟩ := ih
      exact ⟨last, .head (.skip elsewhere passed) looks, stops⟩
  | case4 visited b rest elsewhere ahead ih =>
      rw [not_or, Int.not_lt] at ahead
      obtain ⟨reachable, fresh⟩ := ahead
      obtain ⟨last, looks, stops⟩ := ih
      have below : arena.address b < goal := Int.lt_iff_le_and_ne.mpr ⟨reachable, elsewhere⟩
      exact ⟨last, .head (.visit below fresh) looks, stops⟩

/-! ## Pairs of blocks -/

/-- The block that stands lower, and of two at one address the first. -/
def lower (arena : Arena n) (b c : BlockId) : BlockId :=
  if arena.address b ≤ arena.address c then b else c

/-- The address of the block that stands higher. -/
def higher (arena : Arena n) (b c : BlockId) : Address :=
  max (arena.address b) (arena.address c)

theorem hasLinearPath_eq_reaches (arena : Arena n) (b c : BlockId) :
    arena.hasLinearPath b c = arena.reaches (arena.higher b c) [] [arena.lower b c] := by
  unfold hasLinearPath lower higher
  split
  next low => rw [Int.max_eq_right low]
  next high => rw [Int.max_eq_left (Int.le_of_lt (Int.not_le.mp high))]

theorem higher_comm (arena : Arena n) (b c : BlockId) : arena.higher b c = arena.higher c b :=
  Int.max_comm ..

/-- Between two blocks there is one search, but for two at the same address. -/
theorem lower_comm_or (arena : Arena n) (b c : BlockId) :
    arena.lower b c = arena.lower c b ∨ arena.address b = arena.address c := by
  unfold lower
  rcases Int.lt_trichotomy (arena.address b) (arena.address c) with below | same | above
  · exact .inl (by rw [if_pos (Int.le_of_lt below), if_neg (Int.not_le.mpr below)])
  · exact .inr same
  · exact .inl (by rw [if_neg (Int.not_le.mpr above), if_pos (Int.le_of_lt above)])

theorem address_lower_of_eq (same : arena.address b = arena.address c) :
    arena.address (arena.lower b c) = arena.higher b c := by
  rw [lower, higher, if_pos (Int.le_of_eq same), Int.max_eq_right (Int.le_of_eq same), same]

/-- There is a linear path just if one leads up from the lower of the two blocks. -/
theorem hasLinearPath_eq_true_iff (arena : Arena n) (b c : BlockId) :
    arena.hasLinearPath b c = true ↔ arena.LinearPath (arena.higher b c) (arena.lower b c) := by
  rw [hasLinearPath_eq_reaches, reaches_eq_true_iff, ← freshPath_nil_iff]
  simp only [List.mem_singleton, exists_eq_left]

/-- The answer does not depend on which of the two blocks is named first. -/
theorem hasLinearPath_comm (arena : Arena n) (b c : BlockId) :
    arena.hasLinearPath b c = arena.hasLinearPath c b := by
  rcases arena.lower_comm_or b c with lower | same
  · rw [hasLinearPath_eq_reaches, hasLinearPath_eq_reaches, lower, higher_comm]
  · -- Both searches find the block they start with.
    have here := (arena.hasLinearPath_eq_true_iff b c).mpr ⟨_, .refl, address_lower_of_eq same⟩
    have there := (arena.hasLinearPath_eq_true_iff c b).mpr
      ⟨_, .refl, address_lower_of_eq same.symm⟩
    rw [here, there]

/-- **Linear paths.** Whatever the edges, the search between two blocks is over after as many
looks as there are edges and one more, and its answer is whether a path of edges leads from
the lower block to one that stands where the higher one does, below that address until it gets
there. The blocks may be given in either order. -/
theorem hasLinearPath_spec (arena : Arena n) (b c : BlockId) :
    (∀ looks, ((⟨[], [arena.lower b c]⟩ : Search) :: looks).IsChain
        (arena.Look (arena.higher b c)) → looks.length ≤ arena.unexplored [] + 1) ∧
    (∃ last, Relation.ReflTransGen (arena.Look (arena.higher b c)) ⟨[], [arena.lower b c]⟩ last ∧
      arena.Over (arena.higher b c) last (arena.hasLinearPath b c)) ∧
    (arena.hasLinearPath b c = true ↔
      ∃ last, Relation.ReflTransGen (arena.Ascends (arena.higher b c)) (arena.lower b c) last ∧
        arena.address last = arena.higher b c) ∧
    arena.hasLinearPath b c = arena.hasLinearPath c b := by
  refine ⟨fun looks run => length_le_remaining run, ?_, arena.hasLinearPath_eq_true_iff b c,
    arena.hasLinearPath_comm b c⟩
  rw [hasLinearPath_eq_reaches]
  exact arena.over_of_reaches _ _ _

end ScriptFlow.Arena
