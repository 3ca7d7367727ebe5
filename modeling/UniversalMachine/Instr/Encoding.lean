import UniversalMachine.Fault
import UniversalMachine.Instr

/-!
# Instruction words

An instruction word holds the operation code in its top four bits. Most operations name
registers in the slots A, B and C at the bottom of the word; a load of an immediate value
has its register just below the operation code and the value in the remaining 25 bits.
Bits outside the slots that an operation uses mean nothing: they are ignored when a word is
decoded and zero when an instruction is encoded.
-/

namespace UniversalMachine

namespace Layout

def opcode : BitField 4 where
  lsb := 28

def slotA : BitField 3 where
  lsb := 6

def slotB : BitField 3 where
  lsb := 3

def slotC : BitField 3 where
  lsb := 0

/-- The register of a load of an immediate value. -/
def immediateSlot : BitField 3 where
  lsb := 25

/-- The number of bits of an immediate value. -/
abbrev immediateWidth : Nat :=
  25

def immediate : BitField immediateWidth where
  lsb := 0

/-- The number in the operation code field of a word. -/
def opcodeNumber (word : Word) : Nat :=
  opcode.getUnsigned word.widen

/-- The register in a three-bit field of a word. -/
def register (slot : BitField 3) (word : Word) : Register :=
  (slot.read word.widen).toFin

/-- The immediate value in a word. -/
def immediateValue (word : Word) : Word :=
  Word.ofLow ((immediate.read word.widen).setWidth 64)

end Layout

/-- The operand slots of an instruction word, without regard to what the operation does with
them. -/
inductive Operands (ρ : Type) where
  | registers (a b c : ρ)
  | immediate (a : ρ) (value : Word)
deriving DecidableEq, Repr

/-- The operand slots of a word, in the form that its operation code calls for. -/
def Operands.ofWord (word : Word) : Operands Register :=
  if Layout.opcodeNumber word = Opcode.loadImmediate.number then
    .immediate (Layout.register Layout.immediateSlot word) (Layout.immediateValue word)
  else
    .registers (Layout.register Layout.slotA word) (Layout.register Layout.slotB word)
      (Layout.register Layout.slotC word)

namespace Instr

/-- Reads the slots that an operation uses. The operation code of the word is not looked at. -/
def ofOpcode (op : Opcode) (word : Word) : Instruction :=
  let a := Layout.register Layout.slotA word
  let b := Layout.register Layout.slotB word
  let c := Layout.register Layout.slotC word
  match op with
  | .conditionalMove => conditionalMove a b c
  | .load => load a b c
  | .store => store a b c
  | .add => add a b c
  | .multiply => multiply a b c
  | .divide => divide a b c
  | .nand => nand a b c
  | .halt => halt
  | .map => map b c
  | .unmap => unmap c
  | .output => output c
  | .input => input c
  | .loadProgram => loadProgram b c
  | .loadImmediate =>
    loadImmediate (Layout.register Layout.immediateSlot word) (Layout.immediateValue word)

@[simp] theorem opcode_ofOpcode (op : Opcode) (word : Word) :
    (ofOpcode op word).opcode = op := by
  cases op <;> rfl

/-- The instruction that a word stands for. -/
def decode (word : Word) : Except Fault Instruction :=
  match Opcode.ofNumber? (Layout.opcodeNumber word) with
  | some op => .ok (ofOpcode op word)
  | none => .error (.invalidOpcode (Layout.opcodeNumber word) word)

/-- A word that can be decoded has an assigned operation code, and the slots of the operation. -/
theorem decode_eq_ok_iff {word : Word} {instruction : Instruction} :
    decode word = .ok instruction ↔
      ∃ op : Opcode, op.number = Layout.opcodeNumber word ∧ instruction = ofOpcode op word := by
  unfold decode
  constructor
  · intro decoded
    split at decoded
    · next op assigned =>
        cases decoded
        exact ⟨op, Opcode.number_of_ofNumber? assigned, rfl⟩
    · cases decoded
  · rintro ⟨op, number, rfl⟩
    rw [← number, Opcode.ofNumber?_number]

/-- The slots of an instruction word, with zero in those that the operation does not use. -/
def operands : Instr Nat → Operands Nat
  | conditionalMove out src cond => .registers out src cond
  | load out seg offset => .registers out seg offset
  | store seg offset val => .registers seg offset val
  | add out left right => .registers out left right
  | multiply out left right => .registers out left right
  | divide out left right => .registers out left right
  | nand out left right => .registers out left right
  | halt => .registers 0 0 0
  | map out len => .registers 0 out len
  | unmap seg => .registers 0 0 seg
  | output val => .registers 0 0 val
  | input out => .registers 0 0 out
  | loadProgram seg target => .registers 0 seg target
  | loadImmediate out value => .immediate out value

end Instr

/-- Puts operands into the slots of a word, from the top slot down. The first operand that
does not fit its slot is reported. -/
def Operands.pack (bits : BitVec 64) : Operands Nat → Except Overflow (BitVec 64)
  | .registers a b c => do
    let bits ← Layout.slotA.setUnsigned bits a
    let bits ← Layout.slotB.setUnsigned bits b
    Layout.slotC.setUnsigned bits c
  | .immediate a value => do
    let bits ← Layout.immediateSlot.setUnsigned bits a
    Layout.immediate.setUnsigned bits value.toNat

/-- The word that stands for an instruction. -/
def Instr.encode (instr : Instr Nat) : Except Overflow Word := do
  let bits ← Layout.opcode.setUnsigned 0 instr.opcode.number
  let bits ← instr.operands.pack bits
  return Word.ofLow bits

end UniversalMachine
