import UniversalMachine.Proofs.SignedField

/-!
# Fields by shifting

Everything that is done with a field can be done with shifts of 64-bit words. Ones that are moved
up and down again mask the field. Moved to the top of a word and back with copies of its sign, a
field shows its two's complement number. Ones that are moved up bound the numbers that fit. A
shift by 64 places leaves nothing of a word, or nothing but its sign, and this is what a field
without bits needs.
-/

namespace UniversalMachine

namespace BitField

variable {width : Nat}

theorem width_le (field : BitField width) : width ≤ 64 :=
  Nat.le_trans (Nat.le_add_right width field.lsb) field.inside

/-- Bounds name a field if the field lies in the word. -/
theorem ofBounds_lsb (field : BitField width) : ofBounds width field.lsb = .ok field := by
  rw [ofBounds, if_neg (Nat.not_lt.mpr field.width_le), dif_pos field.inside]

/-! ## Reading -/

theorem mask_eq_shift (field : BitField width) :
    field.mask = (BitVec.allOnes 64 <<< (64 - width)) >>> (64 - width - field.lsb) := by
  have inside := field.inside
  apply BitVec.eq_of_getLsbD_eq
  intro i small
  rw [getLsbD_mask, BitVec.getLsbD_ushiftRight, BitVec.getLsbD_shiftLeft, BitVec.getLsbD_allOnes]
  grind

theorem getUnsigned_eq_shift (field : BitField width) (word : BitVec 64) :
    field.getUnsigned word = ((word &&& field.mask) >>> field.lsb).toNat := by
  have shifted : (word &&& field.mask) >>> field.lsb = (field.read word).setWidth 64 := by
    apply BitVec.eq_of_getLsbD_eq
    intro i small
    rw [BitVec.getLsbD_ushiftRight, BitVec.getLsbD_and, getLsbD_mask, BitVec.getLsbD_setWidth,
      getLsbD_read]
    grind
  rw [getUnsigned, shifted, BitVec.toNat_setWidth_of_le field.width_le]

/-- The word with nothing but the field, moved to its top. -/
def raise (field : BitField width) (word : BitVec 64) : BitVec 64 :=
  (word &&& field.mask) <<< (64 - width - field.lsb)

theorem getLsbD_raise (field : BitField width) (word : BitVec 64) {i : Nat} (short : i < width) :
    (field.raise word).getLsbD (64 - width + i) = (field.read word).getLsbD i := by
  have inside := field.inside
  have place : 64 - width + i - (64 - width - field.lsb) = field.lsb + i := by omega
  rw [raise, BitVec.getLsbD_shiftLeft, BitVec.getLsbD_and, getLsbD_mask, getLsbD_read, place]
  grind

/-- The top bit of the word is the sign of the raised field. -/
theorem msb_raise (field : BitField width) (word : BitVec 64) :
    (field.raise word).msb = (field.read word).msb := by
  have inside := field.inside
  rw [BitVec.msb_eq_getLsbD_last, BitVec.msb_eq_getLsbD_last]
  cases width with
  | zero =>
      rw [raise, BitVec.getLsbD_shiftLeft, BitVec.getLsbD_and, getLsbD_mask]
      grind
  | succ width =>
      have top : 64 - 1 = 64 - (width + 1) + width := by omega
      rw [top]
      exact getLsbD_raise field word (Nat.lt_succ_self width)

theorem getSigned_eq_shift (field : BitField width) (word : BitVec 64) :
    field.getSigned word = ((field.raise word).sshiftRight (64 - width)).toInt := by
  have shifted : (field.raise word).sshiftRight (64 - width) =
      (field.read word).signExtend 64 := by
    apply BitVec.eq_of_getLsbD_eq
    intro i small
    rw [BitVec.getLsbD_sshiftRight, BitVec.getLsbD_signExtend, msb_raise]
    by_cases short : i < width
    · have moved : 64 - width + i < 64 := by omega
      rw [if_pos short, if_pos moved, getLsbD_raise field word short]
      simp [small]
    · have filled : ¬ 64 - width + i < 64 := by omega
      rw [if_neg short, if_neg filled]
      simp [small]
  rw [getSigned, shifted, BitVec.toInt_signExtend_of_le field.width_le]

/-! ## The numbers that fit -/

/-- Ones below bit `width`, where ones that were moved up have left zeros. -/
def greatest (width : Nat) : BitVec 64 :=
  ~~~(BitVec.allOnes 64 <<< width)

/-- Ones from the sign of `width` bits up. -/
def leastSigned (width : Nat) : BitVec 64 :=
  BitVec.allOnes 64 <<< (width - 1)

theorem toNat_greatest (narrow : width ≤ 64) : (greatest width).toNat = 2 ^ width - 1 := by
  have ones : greatest width = (BitVec.allOnes width).setWidth 64 := by
    apply BitVec.eq_of_getLsbD_eq
    intro i small
    rw [greatest, BitVec.getLsbD_not, BitVec.getLsbD_shiftLeft, BitVec.getLsbD_allOnes,
      BitVec.getLsbD_setWidth, BitVec.getLsbD_allOnes]
    grind
  rw [ones, BitVec.toNat_setWidth_of_le narrow, BitVec.toNat_allOnes]

theorem toInt_leastSigned (narrow : width + 1 ≤ 64) :
    (leastSigned (width + 1)).toInt = -2 ^ width := by
  have ones : leastSigned (width + 1) = (BitVec.intMin (width + 1)).signExtend 64 := by
    apply BitVec.eq_of_getLsbD_eq
    intro i small
    rw [leastSigned, BitVec.getLsbD_shiftLeft, BitVec.getLsbD_allOnes, BitVec.getLsbD_signExtend,
      BitVec.getLsbD_intMin, BitVec.msb_intMin]
    grind
  have short : 2 ^ width < 2 ^ (width + 1) := Nat.pow_lt_pow_succ Nat.one_lt_two
  rw [ones, BitVec.toInt_signExtend_of_le narrow, BitVec.toInt_intMin, Nat.add_sub_cancel,
    Nat.mod_eq_of_lt short, Int.natCast_pow]
  rfl

/-- Below the sign there are ones where the least number has zeros. -/
theorem toInt_not_leastSigned (narrow : width + 1 ≤ 64) :
    (~~~leastSigned (width + 1)).toInt = 2 ^ width - 1 := by
  have half : 2 ^ width ≤ 2 ^ 63 := Nat.pow_le_pow_right (by decide) (by omega)
  have number : (~~~leastSigned (width + 1)).toNat = 2 ^ width - 1 :=
    toNat_greatest (Nat.le_of_succ_le narrow)
  rw [BitVec.toInt_eq_toNat_of_lt (by omega), number]
  push_cast [Nat.one_le_two_pow]
  rfl

theorem fitsUnsigned_toNat_iff (narrow : width ≤ 64) {value : BitVec 64} :
    fitsUnsigned width value.toNat = true ↔ value ≤ greatest width := by
  have positive := Nat.two_pow_pos width
  rw [fitsUnsigned_iff, BitVec.le_def, toNat_greatest narrow]
  omega

/-- A field without bits is asked for apart, since it has no place for a sign. -/
theorem fitsSigned_toInt_iff (narrow : width ≤ 64) {value : BitVec 64} :
    fitsSigned width value.toInt = true ↔
      if width = 0 then value = 0
      else (leastSigned width).sle value ∧ value.sle (~~~leastSigned width) := by
  rw [fitsSigned_iff]
  cases width with
  | zero =>
      rw [signedRange, Set.mem_singleton_iff, if_pos rfl, ← BitVec.toInt_zero, BitVec.toInt_inj]
      rfl
  | succ width =>
      rw [signedRange, Set.mem_ofPred_eq, if_neg (Nat.succ_ne_zero width), BitVec.sle_iff_toInt_le,
        BitVec.sle_iff_toInt_le, toInt_leastSigned narrow, toInt_not_leastSigned narrow,
        Int.le_sub_one_iff]

/-! ## Writing -/

/-- Bits above the field do not matter for what is put into it. -/
theorem write_setWidth (field : BitField width) (word bits : BitVec 64) :
    field.write word (bits.setWidth width) =
      (word &&& ~~~field.mask) ||| (bits <<< field.lsb &&& field.mask) := by
  have inside := field.inside
  apply BitVec.eq_of_getLsbD_eq
  intro i small
  simp only [getLsbD_write, BitVec.getLsbD_or, BitVec.getLsbD_and, BitVec.getLsbD_not,
    getLsbD_mask, BitVec.getLsbD_shiftLeft, BitVec.getLsbD_setWidth]
  grind

theorem setUnsigned_eq_shift (field : BitField width) (word value : BitVec 64) :
    field.setUnsigned word value.toNat =
      if value ≤ greatest width then
        .ok ((word &&& ~~~field.mask) ||| (value <<< field.lsb &&& field.mask))
      else .error ⟨value.toNat, width⟩ := by
  simp only [setUnsigned, fitsUnsigned_toNat_iff field.width_le, BitVec.ofNat_toNat,
    write_setWidth]

theorem setSigned_eq_shift (field : BitField width) (word value : BitVec 64) :
    field.setSigned word value.toInt =
      if (if width = 0 then value = 0
        else (leastSigned width).sle value ∧ value.sle (~~~leastSigned width)) then
        .ok ((word &&& ~~~field.mask) ||| (value <<< field.lsb &&& field.mask))
      else .error ⟨value.toInt, width⟩ := by
  have cut : BitVec.ofInt width value.toInt = value.setWidth width :=
    BitVec.signExtend_eq_setWidth_of_le value field.width_le
  simp only [setSigned, fitsSigned_toInt_iff field.width_le, cut, write_setWidth]

end BitField

end UniversalMachine
