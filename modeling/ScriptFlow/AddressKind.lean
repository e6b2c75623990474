import ScriptFlow.Opcode

/-!
What an address is used for.

An instruction that something branches to is a leader: it starts a block of its
own. Its kind says by which sort of branch it is entered; an address entered in
several ways keeps the strongest one (`AddressKind.strongest`).
-/

namespace ScriptFlow

/-- The use of an address, by the branches that go there. -/
inductive AddressKind where
  | plain
  | jumpLabel
  | storeState
  | subroutine
  deriving DecidableEq, Repr

namespace AddressKind

/-- Every kind, the weakest first. -/
def all : List AddressKind := [.plain, .jumpLabel, .storeState, .subroutine]

theorem mem_all (kind : AddressKind) : kind ∈ all := by
  cases kind <;> decide

/-- The strength of a kind. -/
def priority : AddressKind → Nat
  | .plain => 0
  | .jumpLabel => 1
  | .storeState => 2
  | .subroutine => 3

/-- The word for a kind. -/
def text : AddressKind → String
  | .plain => "none"
  | .jumpLabel => "jump_label"
  | .storeState => "store_state"
  | .subroutine => "subroutine"

/-- The name of a kind. -/
def name (kind : AddressKind) : String :=
  kind.text.toUpper

/-- The kind that a word stands for. -/
def ofText? (text : String) : Option AddressKind :=
  all.find? fun kind => kind.text = text

/-- The kind with the given name. -/
def ofName? (name : String) : Option AddressKind :=
  all.find? fun kind => kind.name = name

/-- A kind is read back from its word. -/
theorem ofText?_text (kind : AddressKind) : ofText? kind.text = some kind := by
  cases kind <;> decide +kernel

/-- Of an old kind and a new one the stronger; the old one stays in a tie. -/
def strongest (old new : AddressKind) : AddressKind :=
  if old.priority < new.priority then new else old

/-- The stronger of two kinds has the higher of their priorities. -/
theorem priority_strongest (old new : AddressKind) :
    (strongest old new).priority = max old.priority new.priority := by
  cases old <;> cases new <;> rfl

end AddressKind

/-- The use that an operation makes of the addresses it branches to. Operations
outside this table give their destinations no kind. -/
def Opcode.branchKind? : Opcode → Option AddressKind
  | .jmp | .jz | .jnz => some .jumpLabel
  | .jsr => some .subroutine
  | .storestate => some .storeState
  | _ => none

end ScriptFlow
