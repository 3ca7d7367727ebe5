import UniversalMachine.Opcode
import UniversalMachine.Registers

/-!
# Instructions

An instruction names its registers by their use. What stands for a register is a
parameter: an assembler may write any number, while a decoded instruction only names
registers that exist.
-/

namespace UniversalMachine

/-- An instruction over register names of type `ρ`. -/
inductive Instr (ρ : Type) where
  /-- Copies `src` to `out` if `cond` is not zero. -/
  | conditionalMove (out src cond : ρ)
  /-- Reads a cell of a segment. -/
  | load (out seg offset : ρ)
  /-- Overwrites a cell of a segment. -/
  | store (seg offset val : ρ)
  | add (out left right : ρ)
  | multiply (out left right : ρ)
  | divide (out left right : ρ)
  | nand (out left right : ρ)
  | halt
  /-- Maps a fresh segment of `len` words and puts its handle into `out`. -/
  | map (out len : ρ)
  | unmap (seg : ρ)
  | output (val : ρ)
  | input (out : ρ)
  /-- Makes a copy of a segment the program, unless it is the program already, and
  continues at `target`. -/
  | loadProgram (seg target : ρ)
  | loadImmediate (out : ρ) (value : Word)
deriving DecidableEq, Repr

/-- An instruction as the machine executes it. -/
abbrev Instruction := Instr Register

namespace Instr

variable {ρ σ : Type}

def opcode : Instr ρ → Opcode
  | conditionalMove .. => .conditionalMove
  | load .. => .load
  | store .. => .store
  | add .. => .add
  | multiply .. => .multiply
  | divide .. => .divide
  | nand .. => .nand
  | halt => .halt
  | map .. => .map
  | unmap .. => .unmap
  | output .. => .output
  | input .. => .input
  | loadProgram .. => .loadProgram
  | loadImmediate .. => .loadImmediate

/-- The same instruction with every register renamed. -/
def rename (f : ρ → σ) : Instr ρ → Instr σ
  | conditionalMove out src cond => conditionalMove (f out) (f src) (f cond)
  | load out seg offset => load (f out) (f seg) (f offset)
  | store seg offset val => store (f seg) (f offset) (f val)
  | add out left right => add (f out) (f left) (f right)
  | multiply out left right => multiply (f out) (f left) (f right)
  | divide out left right => divide (f out) (f left) (f right)
  | nand out left right => nand (f out) (f left) (f right)
  | halt => halt
  | map out len => map (f out) (f len)
  | unmap seg => unmap (f seg)
  | output val => output (f val)
  | input out => input (f out)
  | loadProgram seg target => loadProgram (f seg) (f target)
  | loadImmediate out value => loadImmediate (f out) value

@[simp] theorem opcode_rename (f : ρ → σ) (instr : Instr ρ) :
    (instr.rename f).opcode = instr.opcode := by
  cases instr <;> rfl

/-- The written operands, in the order in which a listing shows them. -/
def operandTexts : Instr Nat → List String
  | conditionalMove out src cond => [Register.name out, Register.name src, Register.name cond]
  | load out seg offset => [Register.name out, Register.name seg, Register.name offset]
  | store seg offset val => [Register.name seg, Register.name offset, Register.name val]
  | add out left right => [Register.name out, Register.name left, Register.name right]
  | multiply out left right => [Register.name out, Register.name left, Register.name right]
  | divide out left right => [Register.name out, Register.name left, Register.name right]
  | nand out left right => [Register.name out, Register.name left, Register.name right]
  | halt => []
  | map out len => [Register.name out, Register.name len]
  | unmap seg => [Register.name seg]
  | output val => [Register.name val]
  | input out => [Register.name out]
  | loadProgram seg target => [Register.name seg, Register.name target]
  | loadImmediate out value => [Register.name out, toString value.toNat]

/-- The line of a listing: the mnemonic, then the operands separated by commas. -/
def text (instr : Instr Nat) : String :=
  match instr.operandTexts with
  | [] => instr.opcode.mnemonic
  | operands => instr.opcode.mnemonic ++ " " ++ ", ".intercalate operands

end Instr

/-- The line of a listing for an instruction of the machine. -/
def Instruction.text (instruction : Instruction) : String :=
  Instr.text (instruction.rename Fin.val)

end UniversalMachine
