import UniversalMachine.Proofs.FieldShifts
import UniversalMachine.Proofs.ImageWords
import UniversalMachine.Proofs.OperandSlots

/-!
# Fields that are checked

A field can be asked for by any width and position, and a difference of two numbers can be below
zero. Whoever asks for what there is not comes to a panic, and nothing is done after it. Here words
are taken apart and put together from fields that are asked for in this way. It never comes to a
panic, and the results are those of fields that are known to lie in the word.
-/

namespace UniversalMachine

/-- An operation on something that there is not. -/
inductive Panic where
  | register (error : NoSuchRegister)
  | field (error : FieldError)
  /-- A difference below zero. -/
  | difference (left right : Nat)
  /-- An entry behind the last one. -/
  | entry (size index : Nat)
  /-- A number that has no place in its bits. -/
  | counter (bits number : Nat)
  /-- A program that was put where none is looked for. -/
  | misplaced (handle : Handle)
deriving DecidableEq

/-- A computation that may come to a panic. -/
abbrev Checked (α : Type) :=
  Except Panic α

namespace Checked

variable {width : Nat}

@[simp] theorem ok_bind {α β : Type} (result : α) (rest : α → Checked β) :
    ((.ok result : Checked α) >>= rest) = rest result :=
  rfl

/-! ## One field -/

def difference (left right : Nat) : Checked Nat :=
  if right ≤ left then .ok (left - right) else .error (.difference left right)

theorem difference_of_le {left right : Nat} (le : right ≤ left) :
    difference left right = .ok (left - right) :=
  if_pos le

def field (width lsb : Nat) : Checked (BitField width) :=
  (BitField.ofBounds width lsb).mapError .field

theorem field_eq (field : BitField width) : Checked.field width field.lsb = .ok field := by
  rw [Checked.field, field.ofBounds_lsb]
  rfl

/-- Ones in a field, by two opposite shifts. -/
def mask (width lsb : Nat) : Checked (BitVec 64) := do
  let above ← difference 64 width
  let beside ← difference above lsb
  .ok ((BitVec.allOnes 64 <<< above) >>> beside)

theorem mask_eq (field : BitField width) : mask width field.lsb = .ok field.mask := by
  have inside := field.inside
  rw [mask, difference_of_le field.width_le, ok_bind, difference_of_le (by omega), ok_bind,
    field.mask_eq_shift]

/-- The greatest number that has a place in a field, if a word has room for the field. -/
def greatest (width : Nat) : Checked (BitVec 64) :=
  if 64 < width then .error (.field (.tooWide width)) else .ok (BitField.greatest width)

theorem greatest_eq (field : BitField width) : greatest width = .ok (BitField.greatest width) :=
  if_neg (Nat.not_lt.mpr field.width_le)

def getUnsigned (width lsb : Nat) (word : BitVec 64) : Checked Nat := do
  let _ ← field width lsb
  let mask ← mask width lsb
  .ok ((word &&& mask) >>> lsb).toNat

theorem getUnsigned_eq (field : BitField width) (word : BitVec 64) :
    getUnsigned width field.lsb word = .ok (field.getUnsigned word) := by
  rw [getUnsigned, field_eq, ok_bind, mask_eq, ok_bind, field.getUnsigned_eq_shift]

def setUnsigned (width lsb : Nat) (word : BitVec 64) (value : Nat) :
    Checked (Except Overflow (BitVec 64)) := do
  let _ ← field width lsb
  let greatest ← greatest width
  if value ≤ greatest.toNat then
    let mask ← mask width lsb
    .ok (.ok ((word &&& ~~~mask) ||| (BitVec.ofNat 64 value <<< lsb &&& mask)))
  else .ok (.error ⟨value, width⟩)

theorem setUnsigned_eq (field : BitField width) (word : BitVec 64) (value : Nat) :
    setUnsigned width field.lsb word value = .ok (field.setUnsigned word value) := by
  have positive := Nat.two_pow_pos width
  rw [setUnsigned, field_eq, ok_bind, greatest_eq field, ok_bind,
    BitField.toNat_greatest field.width_le]
  by_cases fits : value < 2 ^ width
  · have cut : (BitVec.ofNat 64 value).setWidth width = BitVec.ofNat width value :=
      BitVec.setWidth_ofNat_of_le field.width_le value
    rw [if_pos (Nat.le_sub_one_of_lt fits), mask_eq, ok_bind, field.setUnsigned_of_lt word fits,
      ← field.write_setWidth, cut]
  · rw [if_neg (by omega), field.setUnsigned_of_le word (Nat.le_of_not_lt fits)]

/-! ## Many fields -/

/-- Sets fields, each given by its width, its lowest bit and a number, up to the first that has no
place for its number. -/
def setFields (word : BitVec 64) :
    List (Nat × Nat × Nat) → Checked (Except Overflow (BitVec 64))
  | [] => .ok (.ok word)
  | (width, lsb, value) :: rest => do
    match ← setUnsigned width lsb word value with
    | .ok word => setFields word rest
    | .error overflow => .ok (.error overflow)

/-- A number with the bounds of its slot. -/
def bounds (entry : Slot × Nat) : Nat × Nat × Nat :=
  (entry.1.width, entry.1.lsb, entry.2)

theorem setFields_eq (word : BitVec 64) (entries : List (Slot × Nat)) :
    setFields word (entries.map bounds) = .ok (Slot.pack word entries) := by
  induction entries generalizing word with
  | nil => rfl
  | cons entry rest ih =>
      have set : setUnsigned entry.1.width entry.1.lsb word entry.2 =
          .ok (entry.1.field.setUnsigned word entry.2) :=
        setUnsigned_eq entry.1.field word entry.2
      rw [List.map_cons, bounds, setFields, set, ok_bind, Slot.pack]
      cases entry.1.field.setUnsigned word entry.2 with
      | ok word => exact ih word
      | error overflow => rfl

/-! ## Instruction words -/

def opcodeNumber (word : Word) : Checked Nat :=
  getUnsigned 4 28 word.widen

theorem opcodeNumber_eq (word : Word) : opcodeNumber word = .ok (Layout.opcodeNumber word) :=
  getUnsigned_eq Layout.opcode word.widen

/-- The number of a register, from the three bits at a position. -/
def registerNumber (lsb : Nat) (word : Word) : Checked Nat :=
  getUnsigned 3 lsb word.widen

theorem registerNumber_a (word : Word) :
    registerNumber 6 word = .ok (Layout.register Layout.slotA word).val :=
  getUnsigned_eq Layout.slotA word.widen

theorem registerNumber_b (word : Word) :
    registerNumber 3 word = .ok (Layout.register Layout.slotB word).val :=
  getUnsigned_eq Layout.slotB word.widen

theorem registerNumber_c (word : Word) :
    registerNumber 0 word = .ok (Layout.register Layout.slotC word).val :=
  getUnsigned_eq Layout.slotC word.widen

theorem registerNumber_target (word : Word) :
    registerNumber 25 word = .ok (Layout.register Layout.immediateSlot word).val :=
  getUnsigned_eq Layout.immediateSlot word.widen

def immediateValue (word : Word) : Checked Word := do
  let value ← getUnsigned 25 0 word.widen
  .ok (UInt32.ofNat value)

theorem immediateValue_eq (word : Word) :
    immediateValue word = .ok (Layout.immediateValue word) := by
  have read : getUnsigned 25 0 word.widen = .ok (Slot.immediate.value word.widen) :=
    getUnsigned_eq Slot.immediate.field word.widen
  rw [immediateValue, read, ok_bind, Slot.value_immediate, UInt32.ofNat_toNat]

/-- The operation code and the operands of a word, whatever the operation does with them. -/
def operands (word : Word) : Checked (Nat × Operands Nat) := do
  let number ← opcodeNumber word
  if number = Opcode.loadImmediate.number then
    let a ← registerNumber 25 word
    let value ← immediateValue word
    .ok (number, .immediate a value)
  else
    let a ← registerNumber 6 word
    let b ← registerNumber 3 word
    let c ← registerNumber 0 word
    .ok (number, .registers a b c)

theorem operands_eq (word : Word) :
    operands word = .ok (Layout.opcodeNumber word, (Operands.ofWord word).rename Fin.val) := by
  rw [operands, opcodeNumber_eq, ok_bind, Operands.ofWord]
  split
  · rw [registerNumber_target, ok_bind, immediateValue_eq]
    rfl
  · rw [registerNumber_a, ok_bind, registerNumber_b, ok_bind, registerNumber_c]
    rfl

/-- An operation on the registers in the slots A, B and C. -/
def ofThree (make : Nat → Nat → Nat → Instr Nat) (word : Word) : Checked (Instr Nat) := do
  let a ← registerNumber 6 word
  let b ← registerNumber 3 word
  let c ← registerNumber 0 word
  .ok (make a b c)

def ofTwo (make : Nat → Nat → Instr Nat) (word : Word) : Checked (Instr Nat) := do
  let b ← registerNumber 3 word
  let c ← registerNumber 0 word
  .ok (make b c)

def ofOne (make : Nat → Instr Nat) (word : Word) : Checked (Instr Nat) := do
  let c ← registerNumber 0 word
  .ok (make c)

/-- The instruction with a given operation whose operands are in a word. -/
def ofOpcode (word : Word) : Opcode → Checked (Instr Nat)
  | .conditionalMove => ofThree .conditionalMove word
  | .load => ofThree .load word
  | .store => ofThree .store word
  | .add => ofThree .add word
  | .multiply => ofThree .multiply word
  | .divide => ofThree .divide word
  | .nand => ofThree .nand word
  | .halt => .ok .halt
  | .map => ofTwo .map word
  | .unmap => ofOne .unmap word
  | .output => ofOne .output word
  | .input => ofOne .input word
  | .loadProgram => ofTwo .loadProgram word
  | .loadImmediate => do
    let out ← registerNumber 25 word
    let value ← immediateValue word
    .ok (.loadImmediate out value)

theorem ofOpcode_eq (op : Opcode) (word : Word) :
    ofOpcode word op = .ok ((Instr.ofOpcode op word).rename Fin.val) := by
  cases op with
  | halt => rfl
  | loadImmediate =>
      rw [ofOpcode, registerNumber_target, ok_bind, immediateValue_eq]
      rfl
  | unmap | output | input =>
      rw [ofOpcode, ofOne, registerNumber_c]
      rfl
  | map | loadProgram =>
      rw [ofOpcode, ofTwo, registerNumber_b, ok_bind, registerNumber_c]
      rfl
  | conditionalMove | load | store | add | multiply | divide | nand =>
      rw [ofOpcode, ofThree, registerNumber_a, ok_bind, registerNumber_b, ok_bind,
        registerNumber_c]
      rfl

def decode (word : Word) : Checked (Except Fault (Instr Nat)) := do
  let number ← opcodeNumber word
  match Opcode.ofNumber? number with
  | some op => .ok (.ok (← ofOpcode word op))
  | none => .ok (.error (.invalidOpcode number word))

theorem decode_eq (word : Word) :
    decode word = .ok ((Instr.decode word).map (Instr.rename Fin.val)) := by
  rw [decode, opcodeNumber_eq, ok_bind, Instr.decode]
  cases Opcode.ofNumber? (Layout.opcodeNumber word) with
  | none => rfl
  | some op =>
      simp only [ofOpcode_eq]
      rfl

/-- Where operands are put, with the operation code above them. -/
def fields (number : Nat) : Operands Nat → List (Nat × Nat × Nat)
  | .registers a b c => [(4, 28, number), (3, 6, a), (3, 3, b), (3, 0, c)]
  | .immediate a value => [(4, 28, number), (3, 25, a), (25, 0, value.toNat)]

def encode (instr : Instr Nat) : Checked (Except Overflow Word) := do
  let bits ← setFields 0 (fields instr.opcode.number instr.operands)
  .ok (bits.map Word.ofLow)

/-- Any instruction can be encoded or is refused, also one that names registers which there are
not. -/
theorem encode_eq (instr : Instr Nat) : encode instr = .ok instr.encode := by
  have placed : fields instr.opcode.number instr.operands =
      ((Slot.opcode, instr.opcode.number) :: instr.operands.entries).map bounds := by
    cases instr.operands <;> rfl
  have packed : instr.packed =
      Slot.pack 0 ((.opcode, instr.opcode.number) :: instr.operands.entries) := by
    simp only [Instr.packed, Slot.pack, ← Operands.pack_entries]
    rfl
  rw [encode, placed, setFields_eq, ok_bind, Instr.encode_eq_packed, packed]
  rfl

/-! ## The words of an image -/

/-- Puts bytes into a word, the first at the top. -/
def packBytes (word : BitVec 64) (i : Nat) : List UInt8 → Checked (Except Overflow (BitVec 64))
  | [] => .ok (.ok word)
  | byte :: rest => do
    let behind ← difference 3 i
    match ← setUnsigned 8 (8 * behind) word byte.toNat with
    | .ok word => packBytes word (i + 1) rest
    | .error overflow => .ok (.error overflow)

/-- No byte is too wide for its field. -/
theorem set_byte (i : Fin 4) (word : BitVec 64) (byte : UInt8) :
    (Image.byteField i).setUnsigned word byte.toNat =
      .ok ((Image.byteField i).write word (.ofNat 8 byte.toNat)) :=
  BitField.setUnsigned_of_lt _ word byte.toNat_lt

theorem packBytes_cons (word : BitVec 64) (i : Fin 4) (byte : UInt8) (rest : List UInt8) :
    packBytes word i.val (byte :: rest) =
      packBytes ((Image.byteField i).write word (.ofNat 8 byte.toNat)) (i.val + 1) rest := by
  have set : setUnsigned 8 (8 * (3 - i.val)) word byte.toNat =
      .ok ((Image.byteField i).setUnsigned word byte.toNat) :=
    setUnsigned_eq (Image.byteField i) word byte.toNat
  rw [packBytes, difference_of_le (by omega), ok_bind, set, ok_bind, set_byte]

def packWord (bytes : List UInt8) : Checked (Except Overflow Word) := do
  let bits ← packBytes 0 0 bytes
  .ok (bits.map Word.ofLow)

theorem packWord_eq (a b c d : UInt8) :
    packWord [a, b, c, d] = .ok (Image.packWord a b c d) := by
  have packed :=
    calc
      packBytes 0 0 [a, b, c, d] = packBytes _ 1 [b, c, d] := packBytes_cons 0 0 a _
      _ = packBytes _ 2 [c, d] := packBytes_cons _ 1 b _
      _ = packBytes _ 3 [d] := packBytes_cons _ 2 c _
      _ = packBytes _ 4 [] := packBytes_cons _ 3 d _
  rw [packWord, packed]
  simp only [Image.packWord, set_byte]
  rfl

/-- Packs the whole words of an image behind the words packed so far. -/
def packFrom (packed : Array Word) : List UInt8 → Checked (Except Overflow (Array Word))
  | a :: b :: c :: d :: rest => do
    match ← packWord [a, b, c, d] with
    | .ok word => packFrom (packed.push word) rest
    | .error overflow => .ok (.error overflow)
  | _ => .ok (.ok packed)

theorem packFrom_eq (packed : Array Word) (bytes : List UInt8) :
    packFrom packed bytes = .ok (Image.packFrom packed bytes) := by
  fun_induction Image.packFrom packed bytes with
  | case1 packed a b c d rest word made ih =>
      rw [packFrom, packWord_eq, ok_bind, made]
      exact ih
  | case2 packed a b c d rest overflow failed =>
      rw [packFrom, packWord_eq, ok_bind, failed]
  | case3 bytes packed no_word =>
      rw [packFrom]
      exact no_word

end Checked

end UniversalMachine
