import ScriptFlow.Proofs.Descent
import ScriptFlow.Proofs.Growth
import ScriptFlow.Proofs.Passes

/-!
# The loops of construction

Construction runs two loops: one takes a task from a stack until none is left, and one, for a
task that fills a block, goes from follower to follower until the block ends. A `Worklist` is
the state between two turns of these loops, and `Worklist.turn` is one turn of whichever loop
is running. It is a plain function, so nothing about it says that the loops end
(`Worklist.Runs`).

They do, because a block that is to be filled is empty then (`Worklist.Orderly`): the
instruction it starts with is claimed and not passed on to another block, which is what pays
for the turn (`Worklist.load`). `Graph.construct_ends` bounds the turns by the instructions
that have no block, on any arena, and says that the loops lead where `Graph.construct` does
and list no instruction twice.
-/

namespace ScriptFlow

open EStateM (Result)

variable {n : Nat}

/-- A construction between two turns of its loops. -/
structure Worklist (n : Nat) where
  draft : Draft n
  /-- The block that is being filled, and the instruction that comes next, if there is one. -/
  filling : Option (BlockId × Option (Fin n))
  /-- The tasks that wait, the next one first. -/
  pending : List (Task n)
  /-- The instructions that were listed so far, each with its block. -/
  listed : List (BlockId × Fin n) := []

namespace Worklist

/-- The instruction starts a block, and not the one that is being filled. -/
def leaves (draft : Draft n) (b : BlockId) (i : Fin n) : Bool :=
  (draft.arena.instr i).isLeader && !(draft.arena.block b).instrs.isEmpty

/-- Lists an instruction in a block. -/
def claim (work : Worklist n) (b : BlockId) (i : Fin n) : Worklist n :=
  { work with draft := work.draft.claim b i, listed := work.listed ++ [(b, i)] }

/-- Records an edge. A block that is created for it is to be filled next. -/
def connect (work : Worklist n) (parent : BlockId) (destination : Fin n) (kind : EdgeKind) :
    Result Fault (Worklist n) Bool :=
  match Task.connect parent destination kind work.draft with
  | .error fault draft => .error fault { work with draft }
  | .ok new draft => .ok true { work with draft, pending := new ++ work.pending }

/-- Lists an instruction, and goes on to its follower if it does not end the block. -/
def advance (work : Worklist n) (b : BlockId) (i : Fin n) : Result Fault (Worklist n) Bool :=
  let instr := work.draft.arena.instr i
  if instr.opcode.endsBlock then
    match instr.exits with
    | .error defect => .error (instr.fault defect) (work.claim b i)
    | .ok exits => .ok true
        { work.claim b i with filling := none, pending := Task.links b exits ++ work.pending }
  else .ok true { work.claim b i with filling := some (b, instr.follower) }

/-- One turn of a loop. The answer is whether there is another one. -/
def turn (work : Worklist n) : Result Fault (Worklist n) Bool :=
  match work.filling, work.pending with
  | none, [] => .ok false work
  | none, .grow b i :: rest => .ok true { work with filling := some (b, some i), pending := rest }
  | none, .link p d kind :: rest => { work with pending := rest }.connect p d kind
  | some (_, none), _ => .ok true { work with filling := none }
  | some (b, some i), _ =>
      match work.draft.arena.owner i with
      | some c =>
          .ok true { work with draft := work.draft.addChild b c .unconditional, filling := none }
      | none =>
          if leaves work.draft b i then { work with filling := none }.connect b i .unconditional
          else work.advance b i

/-- The loops end after so many turns, with or without a fault. -/
inductive Runs : Worklist n → Nat → Result Fault (Worklist n) Unit → Prop
  | stops {work last : Worklist n} : work.turn = .ok false last → Runs work 1 (.ok () last)
  | fails {work last : Worklist n} {fault : Fault} :
    work.turn = .error fault last → Runs work 1 (.error fault last)
  | goesOn {work next : Worklist n} {turns : Nat} {result : Result Fault (Worklist n) Unit} :
    work.turn = .ok true next → Runs next turns result → Runs work (turns + 1) result

/-- The loops at their start: an empty block at the entry is to be filled. -/
def initial (code : Arena n) (first : Fin n) : Worklist n where
  draft := (Stage.initial code first).draft
  filling := none
  pending := (Stage.initial code first).tasks

/-! ## The loops end -/

/-- The tasks that record edges wait behind the one that fills a block, if there is one. It
is the next to be performed, no block is being filled, and its block is empty. -/
inductive Orderly : Worklist n → Prop
  | idle {draft : Draft n} {links : List (Link n)} {listed : List (BlockId × Fin n)} :
    Orderly ⟨draft, none, Stage.pending none links, listed⟩
  | opening {draft : Draft n} {b : BlockId} {i : Fin n} {links : List (Link n)}
      {listed : List (BlockId × Fin n)} :
    b < draft.arena.blocks.size → (draft.arena.block b).instrs = [] →
    Orderly ⟨draft, none, .grow b i :: Stage.pending none links, listed⟩
  | filling {draft : Draft n} {b : BlockId} {reached : Option (Fin n)}
      {links : List (Link n)} {listed : List (BlockId × Fin n)} :
    b < draft.arena.blocks.size →
    Orderly ⟨draft, some (b, reached), Stage.pending none links, listed⟩

/-- What the block that is being filled counts for among the work that remains. Once it lists
an instruction, it may have to leave the next one to another block. -/
def cursor (draft : Draft n) : Option (BlockId × Option (Fin n)) → Nat
  | none => 0
  | some (_, none) => 1
  | some (b, some _) => if (draft.arena.block b).instrs = [] then 1 else 3

/-- A bound on the turns that remain. -/
def load (work : Worklist n) : Nat :=
  Task.workload work.pending work.draft + cursor work.draft work.filling

variable {work next : Worklist n} {code : Arena n} {first : Fin n} {draft after : Draft n}
  {b p : BlockId} {i d : Fin n} {kind : EdgeKind} {links : List (Link n)}
  {listed : List (BlockId × Fin n)}

/-- At the start the block at the entry is to be filled, and nothing else waits. -/
theorem Orderly.initial : (initial code first).Orderly := by
  have bound : code.blocks.size < (code.newBlock (code.instr first).address).blocks.size := by
    rw [Arena.size_newBlock]
    exact Nat.lt_succ_self _
  show Orderly ⟨_, none, .grow code.blocks.size first :: Stage.pending none [], []⟩
  exact .opening bound (by rw [Stage.block_initial])

theorem load_initial (code : Arena n) (first : Fin n) :
    (initial code first).load = 6 * code.unowned + 2 := rfl

/-- After an edge at most the growth of one block is to be done first, which is new. -/
theorem orderly_of_connect {new : List (Task n)}
    (connected : Task.connect p d kind draft = .ok new after) :
    Orderly ⟨after, none, new ++ Stage.pending none links, listed⟩ := by
  obtain ⟨growing, step, rfl⟩ :=
    Stage.step_of_connect (Arena.SameCode.refl draft.arena) connected links
  cases step with
  | reuse => exact .idle
  | @create _ made _ c _ _ _ free created =>
      have bound := Stage.created_lt_size created
      have empty : (made.arena.block c).instrs = [] := by rw [Stage.block_created created]
      exact .opening (by simpa using bound) (by simpa using empty)

/-- Recording an edge leaves the block that it may have created as the next to be filled. -/
theorem connect_of_ok
    (turned : connect ⟨draft, none, Stage.pending none links, listed⟩ p d kind = .ok true next) :
    next.Orderly ∧ next.load ≤ Task.workload (Stage.pending none links) draft + 2 := by
  unfold connect at turned
  split at turned
  next => cases turned
  next new after connected =>
    cases turned
    refine ⟨orderly_of_connect connected, ?_⟩
    have fewer : Task.workload new after ≤ 6 * draft.arena.unowned + 2 :=
      Task.workload_connect_le connected
    simp only [load, cursor, Task.workload, Task.weights_append] at fewer ⊢
    omega

theorem cursor_le (draft : Draft n) (filling : Option (BlockId × Option (Fin n))) :
    cursor draft filling ≤ 3 := by
  unfold cursor
  split
  next => omega
  next => omega
  next => split <;> omega

theorem cursor_pos (draft : Draft n) (b : BlockId) (reached : Option (Fin n)) :
    1 ≤ cursor draft (some (b, reached)) := by
  unfold cursor
  split
  next none => cases none
  next => exact Nat.le_refl 1
  next => split <;> omega

/-- Claiming an instruction pays for the edges it may have, and for the next turn. -/
theorem advance_of_ok (bound : b < draft.arena.blocks.size)
    (free : draft.arena.owner i = none)
    (turned : advance ⟨draft, some (b, some i), Stage.pending none links, listed⟩ b i =
      .ok true next) :
    next.Orderly ∧ next.load ≤ Task.workload (Stage.pending none links) draft := by
  have fewer : (draft.claim b i).arena.unowned + 1 = draft.arena.unowned :=
    Arena.unowned_claim b free
  unfold advance at turned
  dsimp only at turned
  split at turned
  next =>
    split at turned
    next => cases turned
    next exits found =>
      cases turned
      have waits : Task.links b exits ++ Stage.pending none links =
          Stage.pending none (Link.ofEdges b exits ++ links) := by
        rw [Stage.pending_append, Stage.pending_ofEdges]
      have few := Instruction.length_exits_le found
      constructor
      · exact waits ▸ .idle
      · simp only [load, cursor, claim, Task.workload, Task.weights_append, Task.weights_links]
        omega
  next =>
    cases turned
    have small := cursor_le (draft.claim b i) (some (b, (draft.arena.instr i).follower))
    constructor
    · refine .filling ?_
      show b < (draft.arena.claim b i).blocks.size
      rw [Arena.size_claim]
      exact bound
    · simp only [load, claim, Task.workload]
      omega

/-- Filling a block goes on, or leaves edges to be recorded. -/
theorem filling_of_ok {reached : Option (Fin n)} (bound : b < draft.arena.blocks.size)
    (turned : turn ⟨draft, some (b, reached), Stage.pending none links, listed⟩ =
      .ok true next) :
    next.Orderly ∧ next.load <
      Task.workload (Stage.pending none links) draft + cursor draft (some (b, reached)) := by
  have counts := cursor_pos draft b reached
  cases reached with
  | none => cases turned; exact ⟨.idle, Nat.lt_succ_self _⟩
  | some i =>
    unfold turn at turned
    dsimp only at turned
    split at turned
    next c owned =>
      cases turned
      exact ⟨.idle, Nat.lt_of_lt_of_le (Nat.lt_succ_self _) (Nat.add_le_add_left counts _)⟩
    next free =>
      split at turned
      next away =>
        obtain ⟨orderly, fewer⟩ := connect_of_ok turned
        have started : (draft.arena.block b).instrs ≠ [] := by
          simpa using (Bool.and_eq_true_iff.mp away).2
        refine ⟨orderly, Nat.lt_of_le_of_lt fewer ?_⟩
        rw [cursor, if_neg started]
        exact Nat.lt_succ_self _
      next stays =>
        obtain ⟨orderly, fewer⟩ := advance_of_ok bound free turned
        exact ⟨orderly, Nat.lt_of_le_of_lt fewer (Nat.lt_add_of_pos_right counts)⟩

/-- A turn keeps the tasks in order and leaves less to be done. -/
theorem Orderly.turn (orderly : work.Orderly) (turned : work.turn = .ok true next) :
    next.Orderly ∧ next.load < work.load := by
  cases orderly with
  | @idle draft links listed =>
      cases links with
      | nil => cases turned
      | cons link links =>
          obtain ⟨orderly, fewer⟩ := connect_of_ok turned
          refine ⟨orderly, Nat.lt_of_le_of_lt fewer ?_⟩
          have waits : Stage.pending none (link :: links) =
              .link link.parent link.destination link.kind :: Stage.pending none links := rfl
          simp only [load, cursor, Task.workload, waits, Task.weights, Task.weight]
          omega
  | opening bound empty =>
      cases turned
      refine ⟨.filling bound, ?_⟩
      simp only [load, cursor, if_pos empty, Task.workload, Task.weights, Task.weight]
      omega
  | filling bound => exact filling_of_ok bound turned

/-- The loops end from any orderly state. -/
theorem Orderly.runs (orderly : work.Orderly) :
    ∃ turns result, Runs work turns result ∧ turns ≤ work.load + 1 := by
  induction amount : work.load using Nat.strongRecOn generalizing work with
  | ind amount ih =>
      subst amount
      cases turned : work.turn with
      | error fault last => exact ⟨1, _, .fails turned, Nat.le_add_left 1 _⟩
      | ok again next =>
          cases again with
          | false => exact ⟨1, _, .stops turned, Nat.le_add_left 1 _⟩
          | true =>
              obtain ⟨orderly, less⟩ := orderly.turn turned
              obtain ⟨turns, result, runs, bound⟩ := ih next.load less orderly rfl
              exact ⟨turns + 1, result, .goesOn turned runs, Nat.succ_le_succ (bound.trans less)⟩

/-! ## The loops perform the tasks -/

/-- The tasks that remain. A block that is being filled goes on as a new one would, unless it
leaves the next instruction to another block. -/
def tasks (work : Worklist n) : List (Task n) :=
  match work.filling with
  | some (b, some i) =>
      (if leaves work.draft b i then .link b i .unconditional else .grow b i) :: work.pending
  | _ => work.pending

/-- What performing all tasks comes to. -/
def outcome (work : Worklist n) : Result Fault (Draft n) Unit :=
  Task.drain work.tasks work.draft

/-- What a turn leaves to come to. -/
def sequel : Result Fault (Worklist n) Bool → Result Fault (Draft n) Unit
  | .ok true next => next.outcome
  | .ok false last => .ok () last.draft
  | .error fault last => .error fault last.draft

/-- A block that lists an instruction leaves the leaders to others. -/
theorem leaves_claim (bound : b < draft.arena.blocks.size) (i next : Fin n) :
    leaves (draft.claim b i) b next = (draft.arena.instr next).isLeader := by
  have same := (Arena.SameCode.refl draft.arena).claim b i
  have started : ((draft.arena.claim b i).block b).instrs ≠ [] := by
    rw [Arena.instrs_claim, if_pos ⟨rfl, bound⟩]
    exact List.concat_ne_nil i _
  rw [leaves, Draft.arena_claim, same.isLeader, List.isEmpty_eq_false_iff.mpr started]
  exact Bool.and_true _

section Sequel

open Descent

variable {pending : List (Task n)}

/-- Recording an edge in a turn of its own comes to what its task does. -/
theorem sequel_connect :
    sequel (connect ⟨draft, none, pending, listed⟩ p d kind) =
      Task.drain (.link p d kind :: pending) draft := by
  have ran : (Task.link p d kind).run draft = Task.connect p d kind draft := rfl
  unfold connect
  dsimp only
  split
  next failed => exact (drain_of_error (ran.trans failed)).symm
  next connected => exact (drain_of_ok (ran.trans connected)).symm

/-- Listing one instruction, and leaving the rest of its block to the turns that follow, comes to
what the task of the block does. -/
theorem sequel_advance (bound : b < draft.arena.blocks.size)
    (free : draft.arena.owner i = none) :
    sequel (advance ⟨draft, some (b, some i), pending, listed⟩ b i) =
      Task.drain (.grow b i :: pending) draft := by
  have ran := run_grow_of_free b free
  unfold advance
  dsimp only
  split
  next ends =>
    rw [if_pos ends] at ran
    cases found : (draft.arena.instr i).exits with
    | error defect => rw [found] at ran; exact (drain_of_error ran).symm
    | ok exits => rw [found] at ran; exact (drain_of_ok ran).symm
  next goesOn =>
    rw [if_neg goesOn] at ran
    cases found : (draft.arena.instr i).follower with
    | none => rw [found] at ran; exact (drain_of_ok ran).symm
    | some next =>
        rw [found] at ran
        show Task.drain ((if leaves (draft.claim b i) b next then .link b next .unconditional
          else .grow b next) :: pending) (draft.claim b i) = _
        rw [leaves_claim bound]
        refine (drain_congr (ran.trans ?_) pending).symm
        dsimp only
        split <;> rfl

/-- A turn changes nothing about what performing the tasks comes to. -/
theorem Orderly.sequel_eq {result : Result Fault (Worklist n) Bool} (orderly : work.Orderly)
    (turned : work.turn = result) : sequel result = work.outcome := by
  subst turned
  cases orderly with
  | @idle draft links listed =>
      cases links with
      | nil =>
          show .ok () draft = Task.drain [] draft
          rw [Task.drain]
      | cons link links => exact sequel_connect
  | @opening draft b i links listed bound empty =>
      have stays : leaves draft b i = false := by
        rw [leaves, empty]
        exact Bool.and_false _
      show Task.drain ((if leaves draft b i then .link b i .unconditional else .grow b i) ::
        Stage.pending none links) draft = _
      rw [stays]
      rfl
  | @filling draft b reached links listed bound =>
      cases reached with
      | none => rfl
      | some i =>
          show _ = Task.drain ((if leaves draft b i then .link b i .unconditional
            else .grow b i) :: Stage.pending none links) draft
          unfold Worklist.turn
          dsimp only
          split
          next c owned =>
            have linked : (Task.link b i .unconditional).run draft =
                .ok [] (draft.addChild b c .unconditional) := by
              rw [Task.run, Task.connect, owned]
            have grown : (Task.grow b i).run draft =
                .ok [] (draft.addChild b c .unconditional) := Task.fill_of_owner owned
            split
            next => exact (drain_of_ok linked).symm
            next => exact (drain_of_ok grown).symm
          next free =>
            split
            next => exact sequel_connect
            next => exact sequel_advance bound free

end Sequel

/-- What the loops come to. -/
def finish : Result Fault (Worklist n) Unit → Result Fault (Draft n) Unit
  | .ok _ last => .ok () last.draft
  | .error fault last => .error fault last.draft

/-- Turn by turn the loops come to what performing the tasks does. -/
theorem Runs.finish_eq {turns : Nat} {result : Result Fault (Worklist n) Unit}
    (runs : Runs work turns result) (orderly : work.Orderly) : finish result = work.outcome := by
  induction runs with
  | stops turned => exact orderly.sequel_eq turned
  | fails turned => exact orderly.sequel_eq turned
  | goesOn turned _ ih => exact (ih (orderly.turn turned).1).trans (orderly.sequel_eq turned)

/-! ## The instructions that are listed -/

/-- The instructions in `listed` are those that the blocks have been given. They have a block
now, and none is given twice. -/
structure Accounts (code : Arena n) (draft : Draft n) (listed : List (BlockId × Fin n)) :
    Prop where
  owned : ∀ i ∈ listed.map (·.2), draft.arena.owner i ≠ none
  once : (listed.map (·.2)).Nodup
  instrs : ∀ b, (draft.arena.block b).instrs =
    (code.block b).instrs ++ (listed.filter (·.1 = b)).map (·.2)

theorem Accounts.initial : Accounts code (Stage.initial code first).draft [] := by
  refine ⟨nofun, .nil, fun b => ?_⟩
  rw [Stage.initial, Arena.instrs_newBlock]
  exact (List.append_nil _).symm

section Accounts

variable (accounts : Accounts code draft listed)

include accounts

theorem Accounts.addChild (p c : BlockId) (kind : EdgeKind) :
    Accounts code (draft.addChild p c kind) listed :=
  ⟨accounts.owned, accounts.once, by simpa using accounts.instrs⟩

/-- An instruction without a block is listed for the first time. -/
theorem Accounts.claim (bound : b < draft.arena.blocks.size)
    (free : draft.arena.owner i = none) :
    Accounts code (draft.claim b i) (listed ++ [(b, i)]) := by
  have fresh : i ∉ listed.map (·.2) := fun given => accounts.owned i given free
  refine ⟨?_, ?_, fun c => ?_⟩
  · intro j given
    rw [Draft.arena_claim, Arena.owner_claim]
    split
    next => exact Option.some_ne_none b
    next other =>
      rw [List.map_append, List.mem_append] at given
      rcases given with old | last
      · exact accounts.owned j old
      · exact (other (List.mem_singleton.mp last).symm).elim
  · rw [List.map_append, List.nodup_append_comm]
    exact List.nodup_cons.mpr ⟨fresh, accounts.once⟩
  · rw [Draft.arena_claim, Arena.instrs_claim, List.filter_append, List.map_append,
      ← List.append_assoc, ← accounts.instrs c]
    by_cases same : b = c
    · subst same
      rw [if_pos ⟨rfl, bound⟩, List.filter_cons_of_pos (by simp)]
      rfl
    · rw [if_neg fun here => same here.1, List.filter_cons_of_neg (by simpa using same)]
      exact (List.append_nil _).symm

theorem Accounts.create {made : Draft n} {address : Address} {c : BlockId}
    (created : Draft.create address draft = .ok c made) : Accounts code made listed := by
  refine ⟨fun i given => ?_, accounts.once, fun b => ?_⟩
  · rw [Stage.owner_created created]
    exact accounts.owned i given
  · rw [(Draft.create_of_ok created).2.1, Arena.instrs_newBlock]
    exact accounts.instrs b

/-- Recording an edge lists nothing, whether it succeeds or fails. -/
theorem Accounts.connect (p : BlockId) (d : Fin n) (kind : EdgeKind) :
    Accounts code (left (Task.connect p d kind draft)) listed := by
  unfold Task.connect
  split
  next c owned => exact accounts.addChild p c kind
  next free =>
    split
    next failed => rw [(Draft.create_of_error failed).2]; exact accounts
    next c made created => exact (accounts.create created).addChild p c kind

theorem Accounts.connect_turn (pending : List (Task n)) (p : BlockId) (d : Fin n)
    (kind : EdgeKind) :
    let last := left (Worklist.connect ⟨draft, none, pending, listed⟩ p d kind)
    Accounts code last.draft last.listed := by
  have connected := accounts.connect p d kind
  unfold Worklist.connect
  dsimp only
  split
  next failed => rw [failed] at connected; exact connected
  next found => rw [found] at connected; exact connected

end Accounts

/-- A turn keeps the accounts, whether it succeeds or fails. -/
theorem Accounts.turn {result : Result Fault (Worklist n) Bool}
    (accounts : Accounts code work.draft work.listed) (orderly : work.Orderly)
    (turned : work.turn = result) : Accounts code (left result).draft (left result).listed := by
  subst turned
  cases orderly with
  | @idle draft links listed =>
      cases links with
      | nil => exact accounts
      | cons link links => exact accounts.connect_turn ..
  | opening => exact accounts
  | @filling draft b reached links listed bound =>
      cases reached with
      | none => exact accounts
      | some i =>
          unfold Worklist.turn
          dsimp only
          split
          next c owned => exact accounts.addChild b c .unconditional
          next free =>
            split
            next => exact accounts.connect_turn ..
            next =>
              have claimed := accounts.claim bound free
              unfold advance
              dsimp only
              split
              next => split <;> exact claimed
              next => exact claimed

/-- The loops as a whole keep the accounts. -/
theorem Runs.accounts {turns : Nat} {result : Result Fault (Worklist n) Unit}
    (runs : Runs work turns result) (orderly : work.Orderly)
    (accounts : Accounts code work.draft work.listed) :
    Accounts code (left result).draft (left result).listed := by
  induction runs with
  | stops turned => exact accounts.turn orderly turned
  | fails turned => exact accounts.turn orderly turned
  | goesOn turned _ ih =>
      exact ih (orderly.turn turned).1 (accounts.turn orderly turned)

end Worklist

/-- **Termination.** On any arena, a sequence is refused before anything is done, since it is
empty or one of its instructions has a block, or the two loops of construction end. They take
no more turns than the instructions without a block allow, lead where construction does, with
a graph or a fault, and have listed no instruction twice. -/
theorem Graph.construct_ends (instrs : List (Fin n)) (code : Arena n) :
    ((∃ fault, construct instrs code = .error fault code) ∧
      (instrs = [] ∨ ∃ i ∈ instrs, code.owner i ≠ none)) ∨
    ∃ first rest, instrs = first :: rest ∧ ∃ turns result,
      Worklist.Runs (.initial code first) turns result ∧ turns ≤ 6 * code.unowned + 3 ∧
      construct instrs code = (match result with
        | .error fault last => .error fault last.draft.arena
        | .ok _ last => .ok last.draft.graph last.draft.arena) ∧
      ((left result).listed.map (·.2)).Nodup ∧
      ∀ b, ((left result).draft.arena.block b).instrs =
        (code.block b).instrs ++ ((left result).listed.filter (·.1 = b)).map (·.2) := by
  by_cases owned : ∃ i ∈ instrs, code.owner i ≠ none
  · obtain ⟨i, listed, taken⟩ := owned
    obtain ⟨j, -, -, refused⟩ := construct_of_owned listed taken
    exact .inl ⟨⟨_, refused⟩, .inr ⟨i, listed, taken⟩⟩
  push Not at owned
  cases instrs with
  | nil => exact .inl ⟨⟨_, rfl⟩, .inl rfl⟩
  | cons first rest =>
      have orderly : (Worklist.initial code first).Orderly := .initial
      obtain ⟨turns, result, runs, bound⟩ := orderly.runs
      rw [Worklist.load_initial] at bound
      have drained : Task.drain (Stage.initial code first).tasks
          (Stage.initial code first).draft = Worklist.finish result :=
        (runs.finish_eq orderly).symm
      have accounts : Worklist.Accounts code (left result).draft (left result).listed :=
        runs.accounts orderly .initial
      refine .inr ⟨first, rest, rfl, turns, result, runs, bound, ?_, accounts.once,
        accounts.instrs⟩
      rw [construct_eq_drain owned, drained]
      cases result <;> rfl

end ScriptFlow
