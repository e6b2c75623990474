import ScriptFlow.Text

/-!
JSON values as they were written: an object is the list of its fields in the order
of the text, repeated keys included.
-/

namespace ScriptFlow

/-- A number. One written without fraction and exponent is an integer; besides
decimals there are the three values that are no numbers of the standard. -/
inductive Number where
  | integer (value : Int)
  /-- The mantissa times ten to the power of the exponent. -/
  | decimal (mantissa exponent : Int)
  | infinity (negative : Bool)
  | nan
  deriving DecidableEq, Repr

/-- The digits that an integer may have. -/
def Number.maxDigits : Nat := 4300

/-- A JSON value. -/
inductive Json where
  | null
  | bool (value : Bool)
  | number (value : Number)
  | string (value : Text)
  | array (items : List Json)
  | object (fields : List (Text × Json))
  deriving Repr

/-- Why a text cannot be read as JSON. -/
inductive Json.Flaw where
  /-- It breaks the rules of the format. -/
  | malformed
  /-- It has an integer of so many digits, more than are allowed. -/
  | tooManyDigits (count : Nat)
  deriving DecidableEq, Repr

/-- The wording of a flaw. -/
def Json.Flaw.message : Json.Flaw → String
  | malformed => "not a JSON text"
  | tooManyDigits count =>
      s!"Exceeds the limit ({Number.maxDigits} digits) for integer string conversion: " ++
        s!"value has {count} digits; " ++
        "use sys.set_int_max_str_digits() to increase the limit"

end ScriptFlow
