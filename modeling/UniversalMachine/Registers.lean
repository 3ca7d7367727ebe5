import UniversalMachine.Word

/-!
# Registers

The machine has eight registers, each holding one word and starting at zero. A register
that the machine works with is known to exist; a register number that comes from outside
may name none, and using it is refused.
-/

namespace UniversalMachine

/-- One of the eight registers. -/
abbrev Register := Fin 8

/-- A register number from eight on. -/
structure NoSuchRegister where
  number : Nat
deriving DecidableEq, Repr

def NoSuchRegister.message (error : NoSuchRegister) : String :=
  s!"index out of bounds: the len is 8 but the index is {error.number}"

namespace Register

def ofNumber (number : Nat) : Except NoSuchRegister Register :=
  if h : number < 8 then .ok ⟨number, h⟩ else .error ⟨number⟩

/-- The written form of a register number, whether or not the register exists. -/
def name (number : Nat) : String :=
  "r" ++ toString number

end Register

/-- The contents of the eight registers. -/
abbrev Registers := Vector Word 8

namespace Registers

/-- Every register holds zero at the start. -/
def zeroed : Registers :=
  Vector.replicate 8 0

/-- The registers after a word has been put into one of them. -/
def put (registers : Registers) (target : Register) (word : Word) : Registers :=
  registers.set target word

@[simp] theorem get_put (registers : Registers) (target source : Register) (word : Word) :
    (registers.put target word).get source =
      if source = target then word else registers.get source := by
  have numbered (contents : Registers) : contents.get source = contents[source.val] := rfl
  rw [numbered, numbered, put, Vector.getElem_set]
  simp only [Fin.ext_iff, eq_comm]

/-- The word in the register with a given number. -/
def getNumber (registers : Registers) (number : Nat) : Except NoSuchRegister Word := do
  let source ← Register.ofNumber number
  return registers.get source

/-- The registers after a word has been put into the one with a given number. -/
def putNumber (registers : Registers) (number : Nat) (word : Word) :
    Except NoSuchRegister Registers := do
  let target ← Register.ofNumber number
  return registers.put target word

/-- Copies between two register numbers. The source is read before the target is looked at,
so of two missing registers the source is the one reported. -/
def copyNumber (registers : Registers) (target source : Nat) :
    Except NoSuchRegister Registers := do
  let word ← registers.getNumber source
  registers.putNumber target word

end Registers

end UniversalMachine
