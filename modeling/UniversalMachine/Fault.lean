import UniversalMachine.BitField
import UniversalMachine.Channel
import UniversalMachine.Store.Handle

/-!
# Faults

Everything that can go wrong while a program is loaded or run. A fault always ends the run.
-/

namespace UniversalMachine

instance decidableEqExcept {ε α : Type} [DecidableEq ε] [DecidableEq α] :
    DecidableEq (Except ε α)
  | .ok a, .ok b => decidable_of_iff (a = b) (Except.ok.injEq a b).to_iff.symm
  | .error a, .error b => decidable_of_iff (a = b) (Except.error.injEq a b).to_iff.symm
  | .ok _, .error _ => isFalse nofun
  | .error _, .ok _ => isFalse nofun

/-- Why loading or running a program failed. -/
inductive Fault where
  /-- The handle names no segment at present. -/
  | unmappedSegment (handle : Handle)
  /-- The segment is too short for the offset. -/
  | offsetOutOfBounds (handle : Handle) (offset : Word) (length : Nat)
  /-- The program is never unmapped. -/
  | unmapSegmentZero
  /-- Every handle is in use. -/
  | handlesExhausted
  /-- There is no memory for a segment of that length. -/
  | allocationFailed (length : Nat)
  /-- The image has more words than an offset can address. -/
  | programTooLarge (words : Nat)
  /-- The program counter is past the last word of the program. -/
  | pcOutOfBounds (pc : Word) (length : Nat)
  | divideByZero
  /-- The operation code is unassigned. -/
  | invalidOpcode (opcode : Nat) (word : Word)
  /-- An output instruction was given more than a byte. -/
  | outputOutOfRange (value : Word)
  /-- The allowed number of instructions is used up. -/
  | stepLimitExceeded (limit : Nat)
  /-- The input or the output failed. -/
  | channel (error : ChannelError)
  /-- A number does not fit the field it is packed into. -/
  | overflow (error : Overflow)
deriving DecidableEq, Repr

/-- The text that a fault is reported with. -/
def Fault.message : Fault → String
  | unmappedSegment handle => s!"segment {handle.text} is not mapped"
  | offsetOutOfBounds handle offset length =>
    s!"offset {offset.toNat} is out of bounds for segment {handle.text} of length {length}"
  | unmapSegmentZero => "segment 0 cannot be unmapped"
  | handlesExhausted => "no segment handles left to map"
  | allocationFailed length => s!"could not allocate a segment of {length} words"
  | programTooLarge words => s!"program of {words} words does not fit in segment 0"
  | pcOutOfBounds pc length =>
    s!"program counter {pc.toNat} is past the end of segment 0 (length {length})"
  | divideByZero => "division by zero"
  | invalidOpcode opcode word => s!"invalid opcode {opcode} in instruction 0x{word.hex}"
  | outputOutOfRange value => s!"output value {value.toNat} does not fit in a byte"
  | stepLimitExceeded limit => s!"step limit of {limit} instructions exceeded"
  | channel error => s!"I/O error: {error.message}"
  | overflow error => error.message

end UniversalMachine
