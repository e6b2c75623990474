import ScriptFlow.Json.Token

/-!
Reading JSON.

A text is read one character at a time (`Cursor.step`), and the first flaw that is
met is the answer. Whenever a token is complete, it takes the reader from one state
to the next (`Reader.step`). The reader keeps the arrays and objects that are still
open on a stack (`Frame`), so nesting costs no recursion.
-/

namespace ScriptFlow.Json

/-- An array or object that is still open, with what it holds so far, the latest
first. An object waits for the value of a key. -/
inductive Frame where
  | array (items : List Json)
  | object (fields : List (Text × Json)) (key : Text)

/-- What the reader waits for. -/
inductive Reader where
  /-- A value, or the end of the array just opened if that is allowed. -/
  | value (mayClose : Bool) (frames : List Frame)
  /-- A key, or the end of the object just opened if that is allowed. -/
  | key (mayClose : Bool) (fields : List (Text × Json)) (frames : List Frame)
  /-- The colon behind a key. -/
  | colon (fields : List (Text × Json)) (key : Text) (frames : List Frame)
  /-- What follows a value: more of the innermost frame, or its end. -/
  | after (value : Json) (frames : List Frame)

namespace Reader

/-- Reads one more token. -/
def step : Reader → Token → Except Flaw Reader
  | value _ frames, .scalar v => .ok (after v frames)
  | value _ frames, .string s => .ok (after (.string s) frames)
  | value _ frames, .openArray => .ok (value true (.array [] :: frames))
  | value _ frames, .openObject => .ok (key true [] frames)
  | value true (.array items :: frames), .closeArray =>
      .ok (after (.array items.reverse) frames)
  | key _ fields frames, .string name => .ok (colon fields name frames)
  | key true fields frames, .closeObject =>
      .ok (after (.object fields.reverse) frames)
  | colon fields name frames, .colon =>
      .ok (value false (.object fields name :: frames))
  | after v (.array items :: frames), .comma =>
      .ok (value false (.array (v :: items) :: frames))
  | after v (.array items :: frames), .closeArray =>
      .ok (after (.array (v :: items).reverse) frames)
  | after v (.object fields name :: frames), .comma =>
      .ok (key false ((name, v) :: fields) frames)
  | after v (.object fields name :: frames), .closeObject =>
      .ok (after (.object ((name, v) :: fields).reverse) frames)
  | _, _ => .error .malformed

/-- A value may come next. -/
def wantsValue : Reader → Bool
  | value .. => true
  | _ => false

/-- The value read, at the end of the text. -/
def result : Reader → Except Flaw Json
  | after v [] => .ok v
  | _ => .error .malformed

end Reader

/-! ## Characters -/

/-- The token that is being read. Characters and code points read so far are given
with the latest first. -/
inductive Mode where
  | gap
  | word (read : List Char)
  | string (units : List Nat)
  | escape (units : List Nat)
  /-- The next digit is followed by so many others. -/
  | hex (units : List Nat) (missing : Nat) (value : Nat)

/-- A place in a text: the token that it lies in, and the state of the reader in
front of that token. -/
structure Cursor where
  mode : Mode := .gap
  reader : Reader := .value false []

namespace Cursor

/-- Reads a character between tokens. A word begins only where a value may stand. -/
def start (reader : Reader) (c : Char) : Except Flaw Cursor :=
  if isBlank c then .ok { reader }
  else if c = '"' then .ok { mode := .string [], reader }
  else match punctuation? c with
    | some token => do return { reader := ← reader.step token }
    | none =>
        if reader.wantsValue then .ok { mode := .word [c], reader }
        else .error .malformed

/-- Reads one more character. -/
def step (cursor : Cursor) (c : Char) : Except Flaw Cursor :=
  match cursor.mode with
  | .gap => start cursor.reader c
  | .word read =>
      if endsWord c then do
        let value ← valueOfWord read.reverse
        start (← cursor.reader.step (.scalar value)) c
      else .ok { cursor with mode := .word (c :: read) }
  | .string units =>
      if c = '"' then do
        let text : Text := ⟨Text.joinSurrogates units.reverse⟩
        return { reader := ← cursor.reader.step (.string text) }
      else if c = '\\' then .ok { cursor with mode := .escape units }
      else if c < ' ' then .error .malformed
      else .ok { cursor with mode := .string (c.toNat :: units) }
  | .escape units =>
      if c = 'u' then .ok { cursor with mode := .hex units 3 0 }
      else match escaped? c with
        | some c => .ok { cursor with mode := .string (c.toNat :: units) }
        | none => .error .malformed
  | .hex units missing value =>
      match hexValue? c, missing with
      | none, _ => .error .malformed
      | some digit, 0 =>
          .ok { cursor with mode := .string ((16 * value + digit) :: units) }
      | some digit, missing + 1 =>
          .ok { cursor with mode := .hex units missing (16 * value + digit) }

/-- The value read, at the end of the text. A string must be closed by then. -/
def finish (cursor : Cursor) : Except Flaw Json :=
  match cursor.mode with
  | .gap => cursor.reader.result
  | .word read => do
      let value ← valueOfWord read.reverse
      (← cursor.reader.step (.scalar value)).result
  | _ => .error .malformed

end Cursor

/-- The value that a text denotes: one value, with nothing but blanks around it. -/
def parse (text : String) : Except Flaw Json := do
  (← text.toList.foldlM Cursor.step {}).finish

end ScriptFlow.Json
