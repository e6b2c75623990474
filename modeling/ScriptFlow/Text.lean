/-!
Text as a sequence of code points.

A `String` holds whole characters only. An escape in JSON can also name one half of a
surrogate pair by itself, and a name that is read that way must be compared, sorted
and written like any other. Strings are texts by coercion (`Text.ofString`).
-/

namespace ScriptFlow

/-- A sequence of Unicode code points, surrogates included. -/
structure Text where
  points : List Nat
  deriving DecidableEq, Repr

namespace Text

/-- The text of a string. -/
def ofString (string : String) : Text :=
  ⟨string.toList.map Char.toNat⟩

instance : Coe String Text := ⟨ofString⟩

instance : Append Text := ⟨fun first second => ⟨first.points ++ second.points⟩⟩

/-- Some code points stand no later than others: the first that differ decide, and a
sequence stands before those that continue it. -/
def noLater : List Nat → List Nat → Bool
  | [], _ => true
  | _ :: _, [] => false
  | point :: rest, other :: others =>
      point < other || (point = other && noLater rest others)

/-- Texts are in the order of their code points. -/
instance : LE Text := ⟨fun first second => noLater first.points second.points = true⟩

instance (first second : Text) : Decidable (first ≤ second) :=
  inferInstanceAs (Decidable (noLater first.points second.points = true))

/-- Several texts in one, with a separator between them. -/
def intercalate (separator : Text) (items : List Text) : Text :=
  ⟨separator.points.intercalate (items.map points)⟩

/-- The character at a code point. Half of a surrogate pair is none. -/
def character? (point : Nat) : Option Char :=
  if valid : point.isValidChar then some (Char.ofNatAux point valid) else none

/-- The string of a text that consists of whole characters. -/
def toString? (text : Text) : Option String :=
  (text.points.mapM character?).map String.ofList

/-! ## Surrogate pairs -/

/-- The first half of a pair that stands for one character. -/
def isHighSurrogate (unit : Nat) : Bool :=
  0xD800 ≤ unit && unit ≤ 0xDBFF

/-- The second half of a pair that stands for one character. -/
def isLowSurrogate (unit : Nat) : Bool :=
  0xDC00 ≤ unit && unit ≤ 0xDFFF

/-- The code points that code points and halves of pairs stand for. Two halves in a
row that belong together are one character; any other half stays by itself. -/
def joinSurrogates : List Nat → List Nat
  | high :: low :: rest =>
      if isHighSurrogate high && isLowSurrogate low then
        (0x10000 + (high - 0xD800) * 0x400 + (low - 0xDC00)) :: joinSurrogates rest
      else high :: joinSurrogates (low :: rest)
  | units => units

/-! ## Strings as texts -/

@[simp] theorem points_ofString (string : String) :
    (ofString string).points = string.toList.map Char.toNat := rfl

@[simp] theorem points_append (first second : Text) :
    (first ++ second).points = first.points ++ second.points := rfl

/-! ## Order -/

/-- Of two sequences of code points one stands no later than the other. -/
theorem noLater_total (first second : List Nat) :
    noLater first second = true ∨ noLater second first = true := by
  induction first generalizing second with
  | nil => exact Or.inl rfl
  | cons point rest ih =>
      cases second with
      | nil => exact Or.inr rfl
      | cons other others =>
          simp only [noLater, Bool.or_eq_true, Bool.and_eq_true, decide_eq_true_eq]
          rcases Nat.lt_trichotomy point other with less | same | more
          · exact Or.inl (Or.inl less)
          · exact (ih others).imp (Or.inr ⟨same, ·⟩) (Or.inr ⟨same.symm, ·⟩)
          · exact Or.inr (Or.inl more)

/-- What stands no later than a sequence stands no later than those that follow it. -/
theorem noLater_trans {first second third : List Nat}
    (below : noLater first second = true) (above : noLater second third = true) :
    noLater first third = true := by
  induction first generalizing second third with
  | nil => rfl
  | cons point rest ih =>
      cases second with
      | nil => cases below
      | cons other others =>
          cases third with
          | nil => cases above
          | cons last final =>
              simp only [noLater, Bool.or_eq_true, Bool.and_eq_true,
                decide_eq_true_eq] at below above ⊢
              rcases below with below | ⟨same, below⟩
              · exact Or.inl (by omega)
              · rcases above with above | ⟨equal, above⟩
                · exact Or.inl (by omega)
                · exact Or.inr ⟨same.trans equal, ih below above⟩

/-- Any two texts can be put in order. -/
theorem le_total (first second : Text) : first ≤ second ∨ second ≤ first :=
  noLater_total first.points second.points

theorem le_trans {first second third : Text} (below : first ≤ second)
    (above : second ≤ third) : first ≤ third :=
  noLater_trans below above

/-! ## Characters -/

/-- A character is read back from its code point. -/
theorem character?_toNat (c : Char) : character? c.toNat = some c := by
  have valid : c.toNat.isValidChar := c.valid
  rw [character?, dif_pos valid]
  exact congrArg some (Char.ext rfl)

/-- Every string is read back from its text. -/
theorem toString?_ofString (string : String) :
    (ofString string).toString? = some string := by
  have whole (chars : List Char) :
      (chars.map Char.toNat).mapM character? = some chars := by
    induction chars with
    | nil => rfl
    | cons c rest ih => simp [List.mapM_cons, character?_toNat, ih]
  rw [toString?, points_ofString, whole, Option.map_some, String.ofList_toList]

end Text

end ScriptFlow
