import UniversalMachine.Proofs.FieldShifts
import Mathlib.Tactic.Zify

/-!
# What fields do to numbers

Reading a field divides by a power of two and takes the remainder by another, or the integer around
zero that is congruent to it. Writing a field succeeds for the numbers that reading can show. It
takes from the word what was in the field and adds what is there now.
-/

namespace UniversalMachine

namespace BitField

variable {width : Nat}

/-! ## Reading -/

/-- Reading is exact, for every field of a word, also for one without bits at any place and for
the whole word. As a natural number a field is a quotient with a remainder, as an integer it is
the one of its range that is congruent to this. Both come out by masking and shifting the word
too, where the mask is made of ones by two opposite shifts. -/
theorem get_exact (field : BitField width) (word : BitVec 64) :
    ofBounds width field.lsb = .ok field ∧
    field.getUnsigned word = word.toNat / 2 ^ field.lsb % 2 ^ width ∧
    (∀ value : Int, field.getSigned word = value ↔
      value ≡ field.getUnsigned word [ZMOD 2 ^ width] ∧ value ∈ signedRange width) ∧
    field.mask = (BitVec.allOnes 64 <<< (64 - width)) >>> (64 - width - field.lsb) ∧
    field.getUnsigned word = ((word &&& field.mask) >>> field.lsb).toNat ∧
    field.getSigned word = ((field.raise word).sshiftRight (64 - width)).toInt := by
  refine ⟨field.ofBounds_lsb, ?_, ?_, field.mask_eq_shift, field.getUnsigned_eq_shift word,
    field.getSigned_eq_shift word⟩
  · exact field.toNat_read word
  · intro value
    exact toInt_eq_iff

/-- The bits 101 are a five and a negative three. -/
example :
    let field : BitField 3 := { lsb := 4 }
    field.getUnsigned 0xDF = 5 ∧ field.getSigned 0xDF = -3 := by
  decide

/-! ## Writing -/

/-- Putting back what is there changes nothing. -/
@[simp] theorem write_read (field : BitField width) (word : BitVec 64) :
    field.write word (field.read word) = word := by
  apply BitVec.eq_of_getLsbD_eq
  intro i small
  rw [getLsbD_write, getLsbD_read]
  split
  · next mem =>
      have short : i - field.lsb < width := by omega
      rw [decide_eq_true short, Bool.true_and, Nat.add_sub_cancel' mem.1]
  · rfl

/-- A word is the sum of what is outside a field and what is in it. -/
theorem toNat_write (field : BitField width) (word : BitVec 64) (bits : BitVec width) :
    (field.write word bits).toNat =
      (word &&& ~~~field.mask).toNat + bits.toNat * 2 ^ field.lsb := by
  have inside := field.inside
  have apart : (word &&& ~~~field.mask) &&& (bits.setWidth 64 <<< field.lsb) = 0 := by
    apply BitVec.eq_of_getLsbD_eq
    intro i small
    simp only [BitVec.getLsbD_and, BitVec.getLsbD_not, getLsbD_mask, BitVec.getLsbD_shiftLeft,
      BitVec.getLsbD_setWidth]
    grind
  have room : bits.toNat * 2 ^ field.lsb < 2 ^ 64 := by
    calc
      bits.toNat * 2 ^ field.lsb < 2 ^ width * 2 ^ field.lsb :=
        Nat.mul_lt_mul_of_pos_right bits.isLt (Nat.two_pow_pos field.lsb)
      _ = 2 ^ (width + field.lsb) := (Nat.pow_add 2 width field.lsb).symm
      _ ≤ 2 ^ 64 := Nat.pow_le_pow_right (by decide) inside
  rw [write, ← BitVec.add_eq_or_of_and_eq_zero _ _ apart, BitVec.toNat_add_of_and_eq_zero apart,
    BitVec.toNat_shiftLeft, BitVec.toNat_setWidth_of_le field.width_le, Nat.shiftLeft_eq,
    Nat.mod_eq_of_lt room]

/-- A word that has a number, cut to the width of a field, in this field and every other bit of an
older word. -/
structure Replaces (field : BitField width) (word : BitVec 64) (value : Int)
    (result : BitVec 64) : Prop where
  inside : ∀ i < width, result.getLsbD (field.lsb + i) = (value % 2 ^ width).toNat.testBit i
  outside : ∀ i, i < field.lsb ∨ field.lsb + width ≤ i → result.getLsbD i = word.getLsbD i
  sum : (result.toNat : Int) =
    word.toNat - word.toNat / 2 ^ field.lsb % 2 ^ width * 2 ^ field.lsb +
      value % 2 ^ width * 2 ^ field.lsb

theorem replaces_write (field : BitField width) (word : BitVec 64) (value : Int) :
    field.Replaces word value (field.write word (BitVec.ofInt width value)) := by
  have modulus : ((2 ^ width : Nat) : Int) = 2 ^ width := Int.natCast_pow 2 width
  have cut : (BitVec.ofInt width value).toNat = (value % 2 ^ width).toNat := by
    rw [BitVec.toNat_ofInt, modulus]
  have positive : 0 ≤ value % 2 ^ width :=
    Int.emod_nonneg value (Int.ne_of_gt (Int.pow_pos (by decide)))
  constructor
  · intro i short
    rw [getLsbD_write, if_pos ⟨by omega, by omega⟩, Nat.add_sub_cancel_left, ← cut,
      BitVec.testBit_toNat]
  · intro i outside
    rw [getLsbD_write, if_neg (by omega)]
  · have new := field.toNat_write word (BitVec.ofInt width value)
    have old := field.toNat_write word (field.read word)
    rw [write_read, toNat_read] at old
    rw [cut] at new
    zify at new old
    rw [Int.toNat_of_nonneg positive] at new
    omega

/-- Writing is exact, for every field of a word, also for one without bits at any place and for
the whole word. The numbers that can be written are those that the field can show; they replace
what was in the field, leave every other bit and are read back. Any other number is refused. The
same comes out by comparing with shifted ones and putting a shifted number, whose bits beyond the
field are masked, into the word. -/
theorem set_exact (field : BitField width) (word : BitVec 64) :
    ofBounds width field.lsb = .ok field ∧
    (∀ value : Nat,
      (fitsUnsigned width value = true ↔ value < 2 ^ width) ∧
      (value < 2 ^ width → ∃ result, field.setUnsigned word value = .ok result ∧
        field.Replaces word value result ∧ field.getUnsigned result = value) ∧
      (2 ^ width ≤ value → field.setUnsigned word value = .error ⟨value, width⟩)) ∧
    (∀ value : Int,
      (fitsSigned width value = true ↔ value ∈ signedRange width) ∧
      (value ∈ signedRange width → ∃ result, field.setSigned word value = .ok result ∧
        field.Replaces word value result ∧ field.getSigned result = value) ∧
      (value ∉ signedRange width → field.setSigned word value = .error ⟨value, width⟩)) ∧
    (∀ value : BitVec 64,
      field.setUnsigned word value.toNat =
        (if value ≤ greatest width then
          .ok ((word &&& ~~~field.mask) ||| (value <<< field.lsb &&& field.mask))
        else .error ⟨value.toNat, width⟩) ∧
      field.setSigned word value.toInt =
        if (if width = 0 then value = 0
          else (leastSigned width).sle value ∧ value.sle (~~~leastSigned width)) then
          .ok ((word &&& ~~~field.mask) ||| (value <<< field.lsb &&& field.mask))
        else .error ⟨value.toInt, width⟩) := by
  refine ⟨field.ofBounds_lsb, ?_, ?_, ?_⟩
  · intro value
    refine ⟨fitsUnsigned_iff, ?_, field.setUnsigned_of_le word⟩
    intro fits
    refine ⟨_, field.setUnsigned_of_lt word fits, field.replaces_write word value, ?_⟩
    rw [getUnsigned, read_write, BitVec.toNat_ofNat, Nat.mod_eq_of_lt fits]
  · intro value
    refine ⟨fitsSigned_iff, ?_, field.setSigned_of_not_mem word⟩
    intro fits
    exact ⟨_, field.setSigned_of_mem word fits, field.replaces_write word value,
      field.getSigned_write word fits⟩
  · intro value
    exact ⟨field.setUnsigned_eq_shift word value, field.setSigned_eq_shift word value⟩

/-- The numbers at the bounds of a field of six bits and the first ones beyond, and a field without
bits above the last bit of the word. -/
theorem set_exact_bounds :
    let word : BitVec 64 := 0x0123456789ABCDEF
    let field : BitField 6 := { lsb := 10 }
    let empty : BitField 0 := { lsb := 64 }
    ((-32 : Int) ∈ signedRange 6 ∧ ∃ result, field.setSigned word (-32) = .ok result ∧
      field.Replaces word (-32) result ∧ field.getSigned result = -32) ∧
    ((32 : Int) ∉ signedRange 6 ∧ field.setSigned word 32 = .error ⟨32, 6⟩) ∧
    (63 < 2 ^ 6 ∧ ∃ result, field.setUnsigned word 63 = .ok result ∧
      field.Replaces word (63 : Nat) result ∧ field.getUnsigned result = 63) ∧
    (2 ^ 6 ≤ 64 ∧ field.setUnsigned word 64 = .error ⟨(64 : Nat), 6⟩) ∧
    ((0 : Int) ∈ signedRange 0 ∧ ∃ result, empty.setSigned word 0 = .ok result ∧
      empty.Replaces word 0 result ∧ empty.getSigned result = 0) ∧
    field.setSigned word (-32) = .ok 0x0123456789AB81EF := by
  intro word field empty
  obtain ⟨-, unsigned, signed, -⟩ := set_exact field word
  obtain ⟨-, -, signed_empty, -⟩ := set_exact empty word
  have least : (-32 : Int) ∈ signedRange 6 := mem_signedRange_iff.mpr (by decide)
  have beyond : (32 : Int) ∉ signedRange 6 := mt mem_signedRange_iff.mp (by decide)
  have zero : (0 : Int) ∈ signedRange 0 := mem_signedRange_iff.mpr (by decide)
  refine ⟨⟨least, (signed (-32)).2.1 least⟩, ⟨beyond, (signed 32).2.2 beyond⟩, ⟨by decide, ?_⟩,
    ⟨by decide, ?_⟩, ⟨zero, (signed_empty 0).2.1 zero⟩, by decide⟩
  · exact (unsigned 63).2.1 (by decide)
  · exact (unsigned 64).2.2 (by decide)

end BitField

end UniversalMachine
