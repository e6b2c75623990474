/-!
Addresses of a script and the text they are written in.

A script counts its bytes from zero, but nothing here depends on that: an
address is any integer, so the analysis works on relocated and synthetic code
alike.
-/

namespace ScriptFlow

/-- The position of an instruction in its script. -/
abbrev Address := Int

namespace Address

/-- Characters that an address fills at least, its sign included. -/
def textWidth : Nat := 8

/-- The hexadecimal digits of a magnitude, in upper case and without padding. -/
def digits (magnitude : Nat) : List Char :=
  (Nat.toDigits 16 magnitude).map Char.toUpper

/-- The sign written in front of the digits. -/
def sign (address : Address) : List Char :=
  if address < 0 then ['-'] else []

/-- An address in upper case hexadecimal. Zeros between the sign and the digits
fill it up to `textWidth`; a longer address is written in full. -/
def text (address : Address) : String :=
  String.ofList
    (sign address ++
      (digits address.natAbs).leftpad (textWidth - (sign address).length) '0')

example : text 0x1A2B = "00001A2B" := by decide +kernel
example : text (-1) = "-0000001" := by decide +kernel
example : text (2 ^ 64) = "10000000000000000" := by decide +kernel

end Address

end ScriptFlow
