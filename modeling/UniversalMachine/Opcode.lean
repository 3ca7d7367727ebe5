/-!
# Operation codes

The fourteen operations of the machine with their numbers and mnemonics. The numbers are
consecutive from zero, so the list of all operations is also the table from numbers back
to operations.
-/

namespace UniversalMachine

/-- An operation of the machine. -/
inductive Opcode where
  | conditionalMove
  | load
  | store
  | add
  | multiply
  | divide
  | nand
  | halt
  | map
  | unmap
  | output
  | input
  | loadProgram
  | loadImmediate
deriving DecidableEq, Repr

namespace Opcode

/-- Every operation, in the order of the numbers. -/
def all : List Opcode :=
  [conditionalMove, load, store, add, multiply, divide, nand, halt, map, unmap, output,
    input, loadProgram, loadImmediate]

/-- The number that stands for the operation in an instruction word. -/
def number : Opcode → Nat
  | conditionalMove => 0
  | load => 1
  | store => 2
  | add => 3
  | multiply => 4
  | divide => 5
  | nand => 6
  | halt => 7
  | map => 8
  | unmap => 9
  | output => 10
  | input => 11
  | loadProgram => 12
  | loadImmediate => 13

/-- The operation with a given number. Numbers from fourteen on are unassigned. -/
def ofNumber? (n : Nat) : Option Opcode :=
  all[n]?

def mnemonic : Opcode → String
  | conditionalMove => "cmov"
  | load => "sload"
  | store => "sstore"
  | add => "add"
  | multiply => "mul"
  | divide => "div"
  | nand => "nand"
  | halt => "halt"
  | map => "map"
  | unmap => "unmap"
  | output => "out"
  | input => "in"
  | loadProgram => "loadp"
  | loadImmediate => "loadi"

/-- The operation with a given mnemonic. -/
def ofMnemonic? (text : String) : Option Opcode :=
  all.find? fun op => op.mnemonic == text

theorem number_lt (op : Opcode) : op.number < 14 := by
  cases op <;> decide

/-- The position of the operation among the fourteen. -/
def index (op : Opcode) : Fin 14 :=
  ⟨op.number, op.number_lt⟩

theorem mem_all (op : Opcode) : op ∈ all := by
  cases op <;> decide

@[simp] theorem ofNumber?_number (op : Opcode) : ofNumber? op.number = some op := by
  cases op <;> rfl

theorem number_of_ofNumber? {n : Nat} {op : Opcode} (h : ofNumber? n = some op) :
    op.number = n := by
  obtain ⟨below, rfl⟩ := List.getElem?_eq_some_iff.1 h
  have position : ∀ i : Fin all.length, (all.get i).number = i.val := by decide
  exact position ⟨n, below⟩

theorem ofNumber?_eq_none_iff {n : Nat} : ofNumber? n = none ↔ 14 ≤ n :=
  List.getElem?_eq_none_iff

theorem exists_number_eq {n : Nat} (assigned : n < 14) : ∃ op : Opcode, op.number = n := by
  cases found : ofNumber? n with
  | some op => exact ⟨op, number_of_ofNumber? found⟩
  | none => exact absurd (ofNumber?_eq_none_iff.mp found) (Nat.not_le.mpr assigned)

end Opcode

end UniversalMachine
