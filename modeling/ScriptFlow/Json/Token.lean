import ScriptFlow.Json

/-!
The tokens of a JSON text.

A run of characters without punctuation is a word. It is one of the names of a
constant, or a number (`numberOfWord`), or an error. An integer that is too long is
reported as such even if something else is wrong behind it in the same word.
-/

namespace ScriptFlow.Json

/-- A token. What is neither punctuation nor a string is a value by itself. -/
inductive Token where
  | openArray | closeArray | openObject | closeObject | comma | colon
  | string (value : Text)
  | scalar (value : Json)
  deriving Repr

/-- The token that a punctuation character is. -/
def punctuation? : Char → Option Token
  | '[' => some .openArray
  | ']' => some .closeArray
  | '\x7b' => some .openObject
  | '\x7d' => some .closeObject
  | ',' => some .comma
  | ':' => some .colon
  | _ => none

/-- The four characters that may stand between tokens. -/
def isBlank (c : Char) : Bool :=
  c = ' ' || c = '\t' || c = '\n' || c = '\r'

/-- A character in front of which a word ends. -/
def endsWord (c : Char) : Bool :=
  isBlank c || c = '"' || (punctuation? c).isSome

/-! ## Numbers and constants -/

/-- The number that decimal digits denote. -/
def ofDigits (digits : List Char) : Nat :=
  digits.foldl (fun value digit => 10 * value + (digit.toNat - '0'.toNat)) 0

/-- A number with its sign taken off, or the magnitude as it is. -/
def signed (negative : Bool) (magnitude : Nat) : Int :=
  if negative then -(magnitude : Int) else magnitude

/-- The digits in front of a point or exponent, and what follows them. No digit
stands behind a leading zero. -/
def whole (chars : List Char) : List Char × List Char :=
  match chars with
  | '0' :: rest => (['0'], rest)
  | _ => (chars.takeWhile Char.isDigit, chars.dropWhile Char.isDigit)

/-- The digits behind a point, and what follows them. A point without digits is not
taken, and then there are none. -/
def fraction (chars : List Char) : List Char × List Char :=
  match chars with
  | '.' :: rest =>
      let digits := rest.takeWhile Char.isDigit
      if digits.isEmpty then ([], chars) else (digits, rest.dropWhile Char.isDigit)
  | _ => ([], chars)

/-- The exponent at the front, if there is one, and what follows it. A mark without
digits is not taken. -/
def exponent (chars : List Char) : Option Int × List Char :=
  match chars with
  | [] => (none, [])
  | mark :: rest =>
      let (negative, unsigned) := match rest with
        | '-' :: unsigned => (true, unsigned)
        | '+' :: unsigned => (false, unsigned)
        | unsigned => (false, unsigned)
      let digits := unsigned.takeWhile Char.isDigit
      if (mark = 'e' || mark = 'E') && !digits.isEmpty then
        (some (signed negative (ofDigits digits)), unsigned.dropWhile Char.isDigit)
      else (none, chars)

/-- The number that a word denotes. -/
def numberOfWord (word : List Char) : Except Flaw Number :=
  let (negative, unsigned) := match word with
    | '-' :: rest => (true, rest)
    | rest => (false, rest)
  let (digits, rest) := whole unsigned
  let (decimals, rest) := fraction rest
  let (power, rest) := exponent rest
  if decimals.isEmpty && power.isNone && Number.maxDigits < digits.length then
    .error (.tooManyDigits digits.length)
  else if digits.isEmpty || !rest.isEmpty then
    .error .malformed
  else if decimals.isEmpty && power.isNone then
    .ok (.integer (signed negative (ofDigits digits)))
  else
    .ok (.decimal (signed negative (ofDigits (digits ++ decimals)))
      (power.getD 0 - decimals.length))

/-- The value that a word denotes. -/
def valueOfWord (word : List Char) : Except Flaw Json :=
  match String.ofList word with
  | "null" => .ok .null
  | "true" => .ok (.bool true)
  | "false" => .ok (.bool false)
  | "NaN" => .ok (.number .nan)
  | "Infinity" => .ok (.number (.infinity false))
  | "-Infinity" => .ok (.number (.infinity true))
  | _ => (numberOfWord word).map .number

/-! ## Strings -/

/-- The character that a letter stands for behind a backslash. -/
def escaped? : Char → Option Char
  | '"' => some '"'
  | '\\' => some '\\'
  | '/' => some '/'
  | 'b' => some '\x08'
  | 'f' => some '\x0C'
  | 'n' => some '\n'
  | 'r' => some '\r'
  | 't' => some '\t'
  | _ => none

/-- The value of a hexadecimal digit. -/
def hexValue? (digit : Char) : Option Nat :=
  if digit.isDigit then some (digit.toNat - '0'.toNat)
  else if 'a' ≤ digit && digit ≤ 'f' then some (digit.toNat - 'a'.toNat + 10)
  else if 'A' ≤ digit && digit ≤ 'F' then some (digit.toNat - 'A'.toNat + 10)
  else none

end ScriptFlow.Json
