import Mathlib.Order.Defs.Unbundled
import ScriptFlow.Arena

/-!
# What an operation leaves

An operation that fails keeps what it has done so far. `Sustains rel action` says that
the state it leaves is related to the one it started from, whether it fails or not; for
a preorder this goes through a sequence of operations.
-/

namespace ScriptFlow

variable {σ α β : Type} {rel : σ → σ → Prop}

/-- Where the first of two operations fails, the second one does not run. -/
theorem bind_of_error {first : EStateM Fault σ α} {next : α → EStateM Fault σ β} {fault : Fault}
    {before after : σ} (failed : first before = .error fault after) :
    (first >>= next) before = .error fault after := by
  change EStateM.bind first next before = _
  unfold EStateM.bind
  rw [failed]

/-- Succeeding or failing, the operation leaves a state related to the one before. -/
def Sustains (rel : σ → σ → Prop) (action : EStateM Fault σ α) : Prop :=
  ∀ before, rel before (left (action before))

section Sustains

variable {action : EStateM Fault σ α} {next : α → EStateM Fault σ β} {before after : σ}

theorem Sustains.of_ok {value : α} (sustains : Sustains rel action)
    (ran : action before = .ok value after) : rel before after := by
  have kept := sustains before
  rwa [ran] at kept

theorem Sustains.of_error {fault : Fault} (sustains : Sustains rel action)
    (failed : action before = .error fault after) : rel before after := by
  have kept := sustains before
  rwa [failed] at kept

theorem sustains_pure [Std.Refl rel] (value : α) :
    Sustains rel (pure value : EStateM Fault σ α) :=
  fun before => Std.Refl.refl before

/-- A change that relates each state to its image sustains the relation. -/
theorem sustains_modify {change : σ → σ} (each : ∀ before, rel before (change before)) :
    Sustains rel (modify change : EStateM Fault σ PUnit) :=
  each

/-- Two operations in a row sustain a transitive relation if each of them does. -/
theorem Sustains.bind [IsTrans σ rel] (early : Sustains rel action)
    (late : ∀ value, Sustains rel (next value)) : Sustains rel (action >>= next) := by
  intro before
  have first := early before
  change rel before (left (EStateM.bind action next before))
  unfold EStateM.bind
  cases ran : action before with
  | error fault middle =>
      rw [ran] at first
      exact first
  | ok value middle =>
      rw [ran] at first
      exact IsTrans.trans _ _ _ first (late value middle)

/-- An operation that starts with a look at the state. -/
theorem sustains_get_bind {next : σ → EStateM Fault σ β}
    (each : ∀ before, rel before (left (next before before))) :
    Sustains rel (get >>= next) :=
  each

end Sustains

end ScriptFlow
