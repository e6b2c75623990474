/-!
The instruction set of the NWScript virtual machine.

`Opcode.code` and `Opcode.name` are the byte and the mnemonic of an operation;
`Opcode.ofCode?` and `Opcode.ofName?` read them back. The predicates below them
sort the operations by what they do to the flow of control.
-/

namespace ScriptFlow

/-- An operation of the virtual machine. -/
inductive Opcode where
  | cpdownsp | rsadd | cptopsp | const | action | logand | logor | incor | excor
  | booland | eq | neq | geq | gt | lt | leq | shleft | shright | ushright
  | add | sub | mul | div | mod | neg | comp | movsp | storestateall | jmp | jsr
  | jz | retn | destruct | not | decsp | incsp | jnz | cpdownbp | cptopbp
  | decbp | incbp | savebp | restorebp | storestate | nop | scriptsize
  deriving DecidableEq, Repr

namespace Opcode

/-- Every operation, by rising code. -/
def all : List Opcode :=
  [.cpdownsp, .rsadd, .cptopsp, .const, .action, .logand, .logor, .incor, .excor,
    .booland, .eq, .neq, .geq, .gt, .lt, .leq, .shleft, .shright, .ushright,
    .add, .sub, .mul, .div, .mod, .neg, .comp, .movsp, .storestateall, .jmp, .jsr,
    .jz, .retn, .destruct, .not, .decsp, .incsp, .jnz, .cpdownbp, .cptopbp,
    .decbp, .incbp, .savebp, .restorebp, .storestate, .nop, .scriptsize]

theorem mem_all (op : Opcode) : op ∈ all := by
  cases op <;> decide

/-- The byte that encodes an operation. -/
def code : Opcode → Nat
  | .cpdownsp => 0x01 | .rsadd => 0x02 | .cptopsp => 0x03 | .const => 0x04
  | .action => 0x05 | .logand => 0x06 | .logor => 0x07 | .incor => 0x08
  | .excor => 0x09 | .booland => 0x0A | .eq => 0x0B | .neq => 0x0C
  | .geq => 0x0D | .gt => 0x0E | .lt => 0x0F | .leq => 0x10
  | .shleft => 0x11 | .shright => 0x12 | .ushright => 0x13 | .add => 0x14
  | .sub => 0x15 | .mul => 0x16 | .div => 0x17 | .mod => 0x18
  | .neg => 0x19 | .comp => 0x1A | .movsp => 0x1B | .storestateall => 0x1C
  | .jmp => 0x1D | .jsr => 0x1E | .jz => 0x1F | .retn => 0x20
  | .destruct => 0x21 | .not => 0x22 | .decsp => 0x23 | .incsp => 0x24
  | .jnz => 0x25 | .cpdownbp => 0x26 | .cptopbp => 0x27 | .decbp => 0x28
  | .incbp => 0x29 | .savebp => 0x2A | .restorebp => 0x2B | .storestate => 0x2C
  | .nop => 0x2D | .scriptsize => 0x42

/-- The mnemonic of an operation. -/
def name : Opcode → String
  | .cpdownsp => "CPDOWNSP" | .rsadd => "RSADD" | .cptopsp => "CPTOPSP"
  | .const => "CONST" | .action => "ACTION" | .logand => "LOGAND"
  | .logor => "LOGOR" | .incor => "INCOR" | .excor => "EXCOR"
  | .booland => "BOOLAND" | .eq => "EQ" | .neq => "NEQ" | .geq => "GEQ"
  | .gt => "GT" | .lt => "LT" | .leq => "LEQ" | .shleft => "SHLEFT"
  | .shright => "SHRIGHT" | .ushright => "USHRIGHT" | .add => "ADD"
  | .sub => "SUB" | .mul => "MUL" | .div => "DIV" | .mod => "MOD"
  | .neg => "NEG" | .comp => "COMP" | .movsp => "MOVSP"
  | .storestateall => "STORESTATEALL" | .jmp => "JMP" | .jsr => "JSR"
  | .jz => "JZ" | .retn => "RETN" | .destruct => "DESTRUCT" | .not => "NOT"
  | .decsp => "DECSP" | .incsp => "INCSP" | .jnz => "JNZ"
  | .cpdownbp => "CPDOWNBP" | .cptopbp => "CPTOPBP" | .decbp => "DECBP"
  | .incbp => "INCBP" | .savebp => "SAVEBP" | .restorebp => "RESTOREBP"
  | .storestate => "STORESTATE" | .nop => "NOP" | .scriptsize => "SCRIPTSIZE"

/-- The operation that a byte encodes. -/
def ofCode? (code : Int) : Option Opcode :=
  all.find? fun op => (op.code : Int) = code

/-- The operation with the given mnemonic. -/
def ofName? (name : String) : Option Opcode :=
  all.find? fun op => op.name = name

/-- An operation is read back from its code. -/
theorem ofCode?_code (op : Opcode) : ofCode? op.code = some op := by
  cases op <;> rfl

/-- An operation is read back from its mnemonic. -/
theorem ofName?_name (op : Opcode) : ofName? op.name = some op := by
  cases op <;> decide +kernel

/-! ## Flow of control -/

/-- Goes to its destination whatever the stack holds. -/
def isJump : Opcode → Bool
  | .jmp => true
  | _ => false

/-- Goes to its destination or on to the next instruction, as the top of the
stack decides. -/
def isConditional : Opcode → Bool
  | .jz | .jnz => true
  | _ => false

/-- Enters other code that comes back to the next instruction: a subroutine now,
or a stored state later. -/
def isCall : Opcode → Bool
  | .jsr | .storestate => true
  | _ => false

/-- Nothing after the operation runs in one go with it, so no block continues
past it. -/
def endsBlock (op : Opcode) : Bool :=
  op.isJump || op.isConditional || op.isCall || op = .retn

end Opcode

end ScriptFlow
