/-!
Entries of a list by their place, counted from either end.
-/

namespace ScriptFlow.Sequence

variable {α : Type}

/-- The entry at a place. Places count from zero, and negative ones back from the
end, so that the last entry stands at `-1`. -/
def at? (items : List α) (place : Int) : Option α :=
  if 0 ≤ place then items[place.toNat]?
  else if place.natAbs ≤ items.length then items[items.length - place.natAbs]?
  else none

/-- A list without its last entry, unless there is none. -/
def pop? (items : List α) : Option (List α) :=
  if items.isEmpty then none else some items.dropLast

/-- A place that is not negative counts from the start. -/
theorem at?_natCast (items : List α) (place : Nat) :
    at? items place = items[place]? := by
  simp [at?]

/-- A negative place counts from the end. -/
theorem at?_neg_one (items : List α) : at? items (-1) = items.getLast? := by
  cases items with
  | nil => rfl
  | cons first rest => simp [at?, List.getLast?_eq_getElem?]

/-- What is taken away is the last item. -/
theorem pop?_concat (items : List α) (last : α) :
    pop? (items ++ [last]) = some items := by
  simp [pop?]

end ScriptFlow.Sequence
