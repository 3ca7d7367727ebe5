import UniversalMachine.Proofs.FieldPacking
import Mathlib.Data.Int.ModEq
import Mathlib.Data.Set.Insert

/-!
# Two's complement fields

A field of `width` bits shows in two's complement one of the `2 ^ width` integers around zero: the
one that differs from the natural number in the field by a multiple of `2 ^ width`. These integers
are also the ones that can be put into the field, and one that was put there is shown again.
-/

namespace UniversalMachine

namespace BitField

variable {width : Nat}

/-- The integers that `width` bits can show in two's complement. No bits show only zero. -/
def signedRange : Nat → Set Int
  | 0 => {0}
  | width + 1 => {value | -2 ^ width ≤ value ∧ value < 2 ^ width}

/-- The bounds without a case for a field that has no bits. -/
theorem mem_signedRange_iff {value : Int} :
    value ∈ signedRange width ↔ -2 ^ width ≤ 2 * value ∧ 2 * value < 2 ^ width := by
  cases width with
  | zero =>
      rw [signedRange, Set.mem_singleton_iff]
      omega
  | succ width =>
      rw [signedRange, Set.mem_ofPred_eq, Int.pow_succ]
      omega

theorem toInt_mem (bits : BitVec width) : bits.toInt ∈ signedRange width :=
  mem_signedRange_iff.mpr ⟨BitVec.le_two_mul_toInt, BitVec.two_mul_toInt_lt⟩

theorem bmod_of_mem {value : Int} (fits : value ∈ signedRange width) :
    value.bmod (2 ^ width) = value := by
  obtain ⟨least, greatest⟩ := mem_signedRange_iff.mp fits
  apply Int.bmod_eq_of_le_mul_two
  · push_cast
    omega
  · push_cast
    omega

/-- Two's complement shows the number of its range that is congruent to the bits. -/
theorem toInt_eq_iff {bits : BitVec width} {value : Int} :
    bits.toInt = value ↔ value ≡ bits.toNat [ZMOD 2 ^ width] ∧ value ∈ signedRange width := by
  have modulus : ((2 ^ width : Nat) : Int) = 2 ^ width := Int.natCast_pow 2 width
  constructor
  · rintro rfl
    refine ⟨?_, toInt_mem bits⟩
    rw [BitVec.toInt_eq_toNat_bmod, Int.ModEq, ← modulus, Int.bmod_emod]
  · rintro ⟨congruent, fits⟩
    rw [Int.ModEq, ← modulus] at congruent
    calc
      bits.toInt = (bits.toNat : Int).bmod (2 ^ width) := BitVec.toInt_eq_toNat_bmod bits
      _ = value.bmod (2 ^ width) := by
        rw [← Int.emod_bmod (bits.toNat : Int), ← congruent, Int.emod_bmod]
      _ = value := bmod_of_mem fits

theorem toInt_ofInt_eq_iff {value : Int} :
    (BitVec.ofInt width value).toInt = value ↔ value ∈ signedRange width := by
  constructor
  · intro same
    rw [← same]
    exact toInt_mem _
  · intro fits
    rw [BitVec.toInt_ofInt, bmod_of_mem fits]

theorem fitsSigned_iff {value : Int} :
    fitsSigned width value = true ↔ value ∈ signedRange width := by
  rw [fitsSigned, beq_iff_eq, toInt_ofInt_eq_iff]

theorem setSigned_of_mem (field : BitField width) (word : BitVec 64) {value : Int}
    (fits : value ∈ signedRange width) :
    field.setSigned word value = .ok (field.write word (BitVec.ofInt width value)) :=
  if_pos (fitsSigned_iff.mpr fits)

theorem setSigned_of_not_mem (field : BitField width) (word : BitVec 64) {value : Int}
    (wide : value ∉ signedRange width) : field.setSigned word value = .error ⟨value, width⟩ :=
  if_neg (mt fitsSigned_iff.mp wide)

theorem getSigned_write (field : BitField width) (word : BitVec 64) {value : Int}
    (fits : value ∈ signedRange width) :
    field.getSigned (field.write word (BitVec.ofInt width value)) = value := by
  rw [getSigned, read_write, toInt_ofInt_eq_iff.mpr fits]

end BitField

end UniversalMachine
