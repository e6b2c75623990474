import ScriptFlow.Json.Reader

/-!
The options of an analysis, and reading them from a JSON object or a file.

An object must set known options only, and to truth values only. Of several faults
the unknown names are reported first, all of them at once and in the order of
their code points, and then the first value that is no truth value.
-/

namespace ScriptFlow

/-- Which of the optional passes an analysis runs. -/
structure Options where
  /-- Mark the edges that are never taken. -/
  findDeadEdges : Bool := true
  /-- Audit the finished graph. -/
  verify : Bool := false
  deriving DecidableEq, Repr

/-- Why options cannot be read. -/
inductive OptionsFault where
  | unknown (names : List Text)
  | notBoolean (name : Text)
  | notAnObject
  | unreadable (flaw : Json.Flaw)
  | notText
  deriving DecidableEq, Repr

/-- The wording of a fault. -/
def OptionsFault.message : OptionsFault → Text
  | unknown names => "unknown analysis options: " ++ Text.intercalate ", " names
  | notBoolean name => "analysis option '" ++ name ++ "' must be a boolean"
  | notAnObject => "analysis options file must contain a JSON object"
  | unreadable flaw => flaw.message
  | notText => "analysis options file is not UTF-8 text"

namespace Options

/-- The name of the option `findDeadEdges`. -/
def findDeadEdgesName : Text := "find_dead_edges"

/-- The name of the option `verify`. -/
def verifyName : Text := "verify"

/-- The name belongs to an option. -/
def isKnown (name : Text) : Bool :=
  name = findDeadEdgesName || name = verifyName

/-- Sets a key to a value: in its place if it has one, at the end if not. -/
def put (key : Text) (value : Json) : List (Text × Json) → List (Text × Json)
  | [] => [(key, value)]
  | field :: rest =>
      if field.1 = key then (key, value) :: rest else field :: put key value rest

/-- The mapping that fields stand for. A repeated key keeps its first place and has
the last of its values. -/
def mapping (fields : List (Text × Json)) : List (Text × Json) :=
  fields.foldl (fun settled field => put field.1 field.2 settled) []

/-- The truth value that a mapping has for a key, if it has one. -/
def flag? (settled : List (Text × Json)) (key : Text) : Option Bool :=
  match settled.lookup key with
  | some (.bool value) => some value
  | _ => none

/-- The value is no truth value. -/
def isNotBoolean : Json → Bool
  | .bool _ => false
  | _ => true

/-- The options that the fields of an object set. The others have their
defaults. -/
def ofFields (fields : List (Text × Json)) : Except OptionsFault Options :=
  let settled := mapping fields
  match (settled.map (·.1)).filter fun name => !isKnown name with
  | [] =>
      match settled.find? fun field => isNotBoolean field.2 with
      | some (name, _) => .error (.notBoolean name)
      | none =>
          let defaults : Options := {}
          .ok {
            findDeadEdges :=
              (flag? settled findDeadEdgesName).getD defaults.findDeadEdges
            verify := (flag? settled verifyName).getD defaults.verify }
  | unknown => .error (.unknown (unknown.mergeSort (· ≤ ·)))

/-- The options that a JSON text sets. -/
def ofText (text : String) : Except OptionsFault Options :=
  match Json.parse text with
  | .error flaw => .error (.unreadable flaw)
  | .ok (.object fields) => ofFields fields
  | .ok _ => .error .notAnObject

/-- The options of a file with the given content. If there is no such file, all
options have their defaults. -/
def ofFile : Option ByteArray → Except OptionsFault Options
  | none => .ok {}
  | some bytes =>
      match String.fromUTF8? bytes with
      | none => .error .notText
      | some text => ofText text

end Options

end ScriptFlow
