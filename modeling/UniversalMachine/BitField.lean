/-!
# Bit fields of a 64-bit word

A field is a run of consecutive bits of the word. Reading takes its bits out as a vector
of the field's own width; writing puts such a vector back and keeps every other bit. A
number enters a field only if cutting it to the field's width leaves it unchanged.
-/

namespace UniversalMachine

/-- The run of `width` bits whose lowest bit is bit `lsb` of a 64-bit word. -/
structure BitField (width : Nat) where
  lsb : Nat
  inside : width + lsb ≤ 64 := by decide
deriving DecidableEq

/-- A number that a field of `width` bits cannot hold. -/
structure Overflow where
  value : Int
  width : Nat
deriving DecidableEq, Repr

def Overflow.message (overflow : Overflow) : String :=
  s!"value {overflow.value} does not fit in a {overflow.width}-bit field"

/-- Why a width and a position name no field of a 64-bit word. -/
inductive FieldError where
  | tooWide (width : Nat)
  | outside (width lsb : Nat)
deriving DecidableEq, Repr

def FieldError.message : FieldError → String
  | .tooWide width => s!"field width {width} exceeds 64 bits"
  | .outside width lsb => s!"field of width {width} at bit {lsb} does not fit in 64 bits"

namespace BitField

/-- The field with the given bounds. A width that no word has is reported before a field
that sticks out at the top. -/
def ofBounds (width lsb : Nat) : Except FieldError (BitField width) :=
  if 64 < width then .error (.tooWide width)
  else if h : width + lsb ≤ 64 then .ok ⟨lsb, h⟩
  else .error (.outside width lsb)

variable {width : Nat}

/-- Ones in the field, zeros elsewhere. -/
def mask (field : BitField width) : BitVec 64 :=
  (BitVec.allOnes width).setWidth 64 <<< field.lsb

/-- The bits of the field. -/
def read (field : BitField width) (word : BitVec 64) : BitVec width :=
  word.extractLsb' field.lsb width

/-- The word with the bits of the field replaced. -/
def write (field : BitField width) (word : BitVec 64) (bits : BitVec width) : BitVec 64 :=
  (word &&& ~~~field.mask) ||| (bits.setWidth 64 <<< field.lsb)

/-- The field read as a natural number. -/
def getUnsigned (field : BitField width) (word : BitVec 64) : Nat :=
  (field.read word).toNat

/-- The field read as a two's complement number. -/
def getSigned (field : BitField width) (word : BitVec 64) : Int :=
  (field.read word).toInt

/-- Cutting the number to `width` bits and reading it back unsigned leaves it unchanged. -/
def fitsUnsigned (width value : Nat) : Bool :=
  (BitVec.ofNat width value).toNat == value

/-- Cutting the number to `width` bits and reading it back in two's complement leaves it
unchanged. A field without bits holds only zero. -/
def fitsSigned (width : Nat) (value : Int) : Bool :=
  (BitVec.ofInt width value).toInt == value

/-- The word with the field set to a natural number that fits it. -/
def setUnsigned (field : BitField width) (word : BitVec 64) (value : Nat) :
    Except Overflow (BitVec 64) :=
  if fitsUnsigned width value then .ok (field.write word (BitVec.ofNat width value))
  else .error ⟨value, width⟩

/-- The word with the field set to an integer whose two's complement form fits it. -/
def setSigned (field : BitField width) (word : BitVec 64) (value : Int) :
    Except Overflow (BitVec 64) :=
  if fitsSigned width value then .ok (field.write word (BitVec.ofInt width value))
  else .error ⟨value, width⟩

theorem getLsbD_read (field : BitField width) (word : BitVec 64) (i : Nat) :
    (field.read word).getLsbD i = (decide (i < width) && word.getLsbD (field.lsb + i)) := by
  simp [read]

theorem getLsbD_mask (field : BitField width) (i : Nat) :
    field.mask.getLsbD i =
      (decide (field.lsb ≤ i) && decide (i < field.lsb + width)) := by
  have inside := field.inside
  simp only [mask, BitVec.getLsbD_shiftLeft, BitVec.getLsbD_setWidth, BitVec.getLsbD_allOnes]
  grind

/-- Inside the field a written word shows the new bits, elsewhere the old ones. -/
theorem getLsbD_write (field : BitField width) (word : BitVec 64) (bits : BitVec width)
    (i : Nat) :
    (field.write word bits).getLsbD i =
      if field.lsb ≤ i ∧ i < field.lsb + width then bits.getLsbD (i - field.lsb)
      else word.getLsbD i := by
  have inside := field.inside
  have above : width ≤ i - field.lsb → bits.getLsbD (i - field.lsb) = false :=
    BitVec.getLsbD_of_ge bits _
  have beyond : 64 ≤ i → word.getLsbD i = false := BitVec.getLsbD_of_ge word i
  simp only [write, BitVec.getLsbD_or, BitVec.getLsbD_and, BitVec.getLsbD_not, getLsbD_mask,
    BitVec.getLsbD_shiftLeft, BitVec.getLsbD_setWidth]
  grind

@[simp] theorem read_write (field : BitField width) (word : BitVec 64)
    (bits : BitVec width) : field.read (field.write word bits) = bits := by
  apply BitVec.eq_of_getLsbD_eq
  intro i small
  rw [getLsbD_read, getLsbD_write, if_pos ⟨by omega, by omega⟩]
  simp [small]

end BitField

end UniversalMachine
