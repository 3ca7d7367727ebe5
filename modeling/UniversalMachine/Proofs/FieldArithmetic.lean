import UniversalMachine.Instr.Encoding
import Mathlib.Algebra.Group.Nat.Defs

/-!
# Fields in arithmetic

A field of a word is a quotient by a power of two with a remainder by another. The slots of an
instruction word are the fields at fixed places.
-/

namespace UniversalMachine

namespace BitField

variable {width : Nat}

/-- Reading divides the bits below the field away and cuts those above it off. -/
theorem toNat_read (field : BitField width) (word : BitVec 64) :
    (field.read word).toNat = word.toNat / 2 ^ field.lsb % 2 ^ width := by
  rw [read, BitVec.extractLsb'_toNat, Nat.shiftRight_eq_div_pow]

end BitField

namespace Word

@[simp] theorem toNat_widen (word : Word) : word.widen.toNat = word.toNat :=
  BitVec.toNat_setWidth_of_le (by decide)

@[simp] theorem toNat_ofLow (bits : BitVec 64) : (ofLow bits).toNat = bits.toNat % 2 ^ 32 :=
  BitVec.toNat_setWidth 32 bits

end Word

namespace Layout

theorem opcodeNumber_eq (word : Word) : opcodeNumber word = word.toNat / 2 ^ 28 := by
  have bound : word.toNat < 2 ^ 32 := word.toNat_lt
  rw [opcodeNumber, BitField.getUnsigned, BitField.toNat_read, Word.toNat_widen]
  exact Nat.mod_eq_of_lt (Nat.div_lt_of_lt_mul bound)

theorem val_register (slot : BitField 3) (word : Word) :
    (register slot word).val = word.toNat / 2 ^ slot.lsb % 2 ^ 3 := by
  rw [register, BitVec.val_toFin, BitField.toNat_read, Word.toNat_widen]

theorem toNat_immediateValue (word : Word) :
    (immediateValue word).toNat = word.toNat % 2 ^ immediateWidth := by
  have bound : word.toNat % 2 ^ immediateWidth < 2 ^ 25 := Nat.mod_lt word.toNat (by decide)
  have narrow : (immediate.read word.widen).toNat = word.toNat % 2 ^ immediateWidth := by
    rw [BitField.toNat_read, Word.toNat_widen, immediate, Nat.pow_zero, Nat.div_one]
  rw [immediateValue, Word.toNat_ofLow, BitVec.toNat_setWidth, narrow,
    Nat.mod_eq_of_lt (Nat.lt_trans bound (by decide)),
    Nat.mod_eq_of_lt (Nat.lt_trans bound (by decide))]

end Layout

/-- A word cannot be decoded if its operation code is unassigned. -/
theorem Instr.decode_eq_error_iff {word : Word} {fault : Fault} :
    decode word = .error fault ↔
      14 ≤ word.toNat / 2 ^ 28 ∧ fault = .invalidOpcode (word.toNat / 2 ^ 28) word := by
  rw [← Layout.opcodeNumber_eq, ← Opcode.ofNumber?_eq_none_iff, decode]
  cases Opcode.ofNumber? (Layout.opcodeNumber word) <;> simp [eq_comm]

end UniversalMachine
