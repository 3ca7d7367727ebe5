import UniversalMachine.Proofs.FieldPacking
import Mathlib.Data.Fin.Basic
import Mathlib.Logic.Function.Basic

/-!
# Instructions as words

An instruction is encoded by putting its operands into the slots of its operation, and decoded
by taking them out again. An instruction can be encoded if each of its operands fits its slot,
and is then what its word decodes to. A word that decodes is encoded again as itself, but for
the bits outside the slots, which come back as zeros.
-/

namespace UniversalMachine

namespace Slot

/-- The slot of the operation code. -/
def opcode : Slot where
  lsb := 28
  width := 4
  inside := Layout.opcode.inside

def a : Slot where
  lsb := 6
  width := 3
  inside := Layout.slotA.inside

def b : Slot where
  lsb := 3
  width := 3
  inside := Layout.slotB.inside

def c : Slot where
  lsb := 0
  width := 3
  inside := Layout.slotC.inside

/-- The register that is loaded with an immediate value. -/
def target : Slot where
  lsb := 25
  width := 3
  inside := Layout.immediateSlot.inside

def immediate : Slot where
  lsb := 0
  width := 25
  inside := Layout.immediate.inside

theorem value_opcode (word : Word) : opcode.value word.widen = word.toNat / 2 ^ 28 := by
  have bound : word.toNat < 2 ^ 32 := word.toNat_lt
  rw [value_widen]
  exact Nat.mod_eq_of_lt (Nat.div_lt_of_lt_mul bound)

theorem value_immediate (word : Word) :
    immediate.value word.widen = (Layout.immediateValue word).toNat := by
  rw [Layout.toNat_immediateValue, value_widen, immediate, Nat.pow_zero, Nat.div_one]

end Slot

namespace Opcode

/-- The slots that an operation uses, from the top of the word down. -/
def slots : Opcode → List Slot
  | halt => []
  | unmap | output | input => [.c]
  | map | loadProgram => [.b, .c]
  | conditionalMove | load | store | add | multiply | divide | nand => [.a, .b, .c]
  | loadImmediate => [.target, .immediate]

/-- Every slot with a meaning in a word with this operation code, the operation code included. -/
def layout (op : Opcode) : List Slot :=
  .opcode :: op.slots

/-- A bit that has a meaning in a word with this operation code. -/
def Uses (op : Opcode) (i : Nat) : Prop :=
  ∃ slot ∈ op.layout, i ∈ slot

theorem apart_layout (op : Opcode) :
    op.layout.Pairwise fun earlier later => later.Apart earlier := by
  apply Slot.pairwise_apart
  cases op <;> decide

theorem layout_low (op : Opcode) : ∀ slot ∈ op.layout, slot.lsb + slot.width ≤ 32 := by
  cases op <;> decide

theorem number_lt_opcode (op : Opcode) : op.number < 2 ^ Slot.opcode.width :=
  Nat.lt_trans op.number_lt (by decide)

end Opcode

namespace Instr

/-- The operands, in the order of the slots that hold them. -/
def values : Instr Nat → List Nat
  | conditionalMove out src cond => [out, src, cond]
  | load out seg offset => [out, seg, offset]
  | store seg offset val => [seg, offset, val]
  | add out left right => [out, left, right]
  | multiply out left right => [out, left, right]
  | divide out left right => [out, left, right]
  | nand out left right => [out, left, right]
  | halt => []
  | map out len => [out, len]
  | unmap seg => [seg]
  | output val => [val]
  | input out => [out]
  | loadProgram seg target => [seg, target]
  | loadImmediate out value => [out, value.toNat]

/-- The operands with the slots that hold them. -/
def entries (instr : Instr Nat) : List (Slot × Nat) :=
  instr.opcode.slots.zip instr.values

/-- Every operand fits its slot. -/
def Fits (instr : Instr Nat) : Prop :=
  ∀ entry ∈ instr.entries, entry.2 < 2 ^ entry.1.width

theorem length_values (instr : Instr Nat) :
    instr.values.length = instr.opcode.slots.length := by
  cases instr <;> rfl

theorem slots_entries (instr : Instr Nat) : instr.entries.map Prod.fst = instr.opcode.slots :=
  List.map_fst_zip (Nat.le_of_eq instr.length_values.symm)

theorem values_entries (instr : Instr Nat) : instr.entries.map Prod.snd = instr.values :=
  List.map_snd_zip (Nat.le_of_eq instr.length_values)

/-- An instruction is known by its operation and its operands. -/
theorem eq_of_values {instr other : Instr Nat} (op : instr.opcode = other.opcode)
    (values : instr.values = other.values) : instr = other := by
  cases instr <;> cases other <;> cases op <;> simp_all [Instr.values, UInt32.toNat_inj]

section Rename

variable {ρ σ τ : Type}

theorem rename_id (instr : Instr ρ) : instr.rename id = instr := by
  cases instr <;> rfl

theorem rename_rename (f : ρ → σ) (g : σ → τ) (instr : Instr ρ) :
    (instr.rename f).rename g = instr.rename (g ∘ f) := by
  cases instr <;> rfl

/-- No two instructions become the same if no two registers do. -/
theorem rename_injective [Nonempty ρ] {f : ρ → σ} (injective : Function.Injective f) :
    Function.Injective (rename f) := by
  obtain ⟨back, undoes⟩ := injective.hasLeftInverse
  have undone : Function.LeftInverse (rename back) (rename f) := by
    intro instr
    rw [rename_rename, undoes.comp_eq_id, rename_id]
  exact undone.injective

end Rename

/-! ## Encoding -/

theorem pack_registers (bits : BitVec 64) (a b c : Nat) :
    (Operands.registers a b c).pack bits = Slot.pack bits [(.a, a), (.b, b), (.c, c)] := by
  have last (bits : BitVec 64) : Layout.slotC.setUnsigned bits c = Slot.pack bits [(.c, c)] :=
    (Slot.pack_singleton .c bits c).symm
  simp only [Operands.pack, last]
  rfl

theorem pack_immediate (bits : BitVec 64) (out : Nat) (value : Word) :
    (Operands.immediate out value).pack bits =
      Slot.pack bits [(.target, out), (.immediate, value.toNat)] := by
  have last (bits : BitVec 64) : Layout.immediate.setUnsigned bits value.toNat =
      Slot.pack bits [(.immediate, value.toNat)] :=
    (Slot.pack_singleton .immediate bits value.toNat).symm
  simp only [Operands.pack, last]
  rfl

/-- The zeros that are put into slots which the operation does not use leave no trace. -/
theorem pack_operands (instr : Instr Nat) {bits : BitVec 64} (blank_a : Slot.a.value bits = 0)
    (blank_b : Slot.b.value bits = 0) (blank_c : Slot.c.value bits = 0) :
    instr.operands.pack bits = Slot.pack bits instr.entries := by
  cases instr with
  | halt =>
      rw [operands, pack_registers, Slot.pack_cons_zero blank_a, Slot.pack_cons_zero blank_b,
        Slot.pack_cons_zero blank_c]
      rfl
  | unmap | output | input =>
      rw [operands, pack_registers, Slot.pack_cons_zero blank_a, Slot.pack_cons_zero blank_b]
      rfl
  | map | loadProgram =>
      rw [operands, pack_registers, Slot.pack_cons_zero blank_a]
      rfl
  | loadImmediate => exact pack_immediate ..
  | conditionalMove | load | store | add | multiply | divide | nand => exact pack_registers ..

/-- The operation code and the operands with the slots that hold them. -/
def contents (instr : Instr Nat) : List (Slot × Nat) :=
  (.opcode, instr.opcode.number) :: instr.entries

/-- The 64 bits that are packed before they are cut to a word. -/
def packed (instr : Instr Nat) : Except Overflow (BitVec 64) := do
  let bits ← Layout.opcode.setUnsigned 0 instr.opcode.number
  instr.operands.pack bits

theorem encode_eq_packed (instr : Instr Nat) : instr.encode = Word.ofLow <$> instr.packed := by
  simp only [encode, packed, map_bind, bind_pure_comp]

/-- Encoding puts the operation code and the operands into their slots of an empty word. -/
theorem packed_eq (instr : Instr Nat) : instr.packed = Slot.pack 0 instr.contents := by
  have fits := instr.opcode.number_lt_opcode
  let start := Slot.opcode.put 0 instr.opcode.number
  have started : Layout.opcode.setUnsigned 0 instr.opcode.number = .ok start :=
    BitField.setUnsigned_of_lt Layout.opcode 0 fits
  have blank {slot : Slot} (below : slot.lsb + slot.width ≤ 28) : slot.value start = 0 := by
    have apart : Slot.opcode.Apart slot :=
      fun i mem inside => Slot.apart_of_le below i inside mem
    rw [Slot.value_put_of_apart apart, Slot.value_zero]
  calc
    instr.packed = instr.operands.pack start := by
      rw [packed, started]
      rfl
    _ = Slot.pack start instr.entries :=
      pack_operands instr (blank (by decide)) (blank (by decide)) (blank (by decide))
    _ = Slot.pack 0 instr.contents := by
      rw [contents, Slot.pack_cons_of_lt fits]

theorem findSome?_contents (instr : Instr Nat) :
    instr.contents.findSome? Slot.overflow? = instr.entries.findSome? Slot.overflow? := by
  rw [contents, List.findSome?_cons, Slot.overflow?_eq_none_iff.mpr instr.opcode.number_lt_opcode]

theorem packed_of_fits {instr : Instr Nat} (fits : instr.Fits) :
    instr.packed = .ok (Slot.putAll 0 instr.contents) := by
  rw [packed_eq]
  apply Slot.pack_of_fits
  intro entry mem
  rcases List.mem_cons.mp mem with rfl | operand
  · exact instr.opcode.number_lt_opcode
  · exact fits entry operand

/-- The first operand that does not fit its slot is reported. -/
theorem encode_eq_error_iff {instr : Instr Nat} {overflow : Overflow} :
    instr.encode = .error overflow ↔
      instr.entries.findSome? Slot.overflow? = some overflow := by
  rw [encode_eq_packed, packed_eq, Slot.pack_eq, findSome?_contents]
  cases instr.entries.findSome? Slot.overflow? <;> simp [Functor.map, Except.map]

theorem fits_iff {instr : Instr Nat} :
    instr.Fits ↔ instr.entries.findSome? Slot.overflow? = none := by
  simp only [Fits, List.findSome?_eq_none_iff, Slot.overflow?_eq_none_iff]

theorem encode_of_fits {instr : Instr Nat} (fits : instr.Fits) :
    instr.encode = .ok (Word.ofLow (Slot.putAll 0 instr.contents)) := by
  rw [encode_eq_packed, packed_of_fits fits]
  rfl

theorem fits_of_encode {instr : Instr Nat} {word : Word} (encoded : instr.encode = .ok word) :
    instr.Fits := by
  rw [fits_iff]
  cases refused : instr.entries.findSome? Slot.overflow? with
  | none => rfl
  | some overflow =>
      rw [encode_eq_error_iff.mpr refused] at encoded
      cases encoded

theorem slots_contents (instr : Instr Nat) :
    instr.contents.map Prod.fst = instr.opcode.layout := by
  rw [contents, List.map_cons, slots_entries, Opcode.layout]

theorem mem_layout {instr : Instr Nat} {entry : Slot × Nat} (mem : entry ∈ instr.contents) :
    entry.1 ∈ instr.opcode.layout := by
  rw [← slots_contents]
  exact List.mem_map_of_mem mem

section Encoded

variable {instr : Instr Nat} {word : Word} (encoded : instr.encode = .ok word)
include encoded

/-- Cutting the packed bits to a word loses nothing. -/
theorem widen_of_encode : word.widen = Slot.putAll 0 instr.contents := by
  have low : ∀ entry ∈ instr.contents, entry.1.lsb + entry.1.width ≤ 32 :=
    fun entry mem => instr.opcode.layout_low entry.1 (mem_layout mem)
  rw [encode_of_fits (fits_of_encode encoded), Except.ok.injEq] at encoded
  rw [← encoded, Word.widen_ofLow_putAll low]

/-- The slots of the word hold the operation code and the operands. -/
theorem value_of_encode :
    ∀ entry ∈ instr.contents, entry.1.value word.widen = entry.2 := by
  have apart : (instr.contents.map Prod.fst).Pairwise fun earlier later => later.Apart earlier := by
    rw [slots_contents]
    exact instr.opcode.apart_layout
  have fits : ∀ entry ∈ instr.contents, entry.2 < 2 ^ entry.1.width := by
    intro entry mem
    rcases List.mem_cons.mp mem with rfl | operand
    · exact instr.opcode.number_lt_opcode
    · exact fits_of_encode encoded entry operand
  rw [widen_of_encode encoded]
  exact Slot.value_putAll apart fits

/-- The bits outside the slots are zero. -/
theorem getLsbD_of_encode {i : Nat} (unused : ¬ instr.opcode.Uses i) :
    word.widen.getLsbD i = false := by
  rw [widen_of_encode encoded, Slot.getLsbD_putAll]
  · exact BitVec.getLsbD_zero
  · exact fun entry mem inside => unused ⟨entry.1, mem_layout mem, inside⟩

theorem number_of_encode : word.toNat / 2 ^ 28 = instr.opcode.number := by
  rw [← Slot.value_opcode]
  exact value_of_encode encoded (.opcode, instr.opcode.number) List.mem_cons_self

theorem values_of_encode :
    instr.opcode.slots.map (fun slot => slot.value word.widen) = instr.values := by
  calc
    instr.opcode.slots.map (fun slot => slot.value word.widen) =
        instr.entries.map fun entry => entry.1.value word.widen := by
      rw [← slots_entries, List.map_map]
      rfl
    _ = instr.entries.map Prod.snd := by
      apply List.map_congr_left
      exact fun entry mem => value_of_encode encoded entry (List.mem_cons_of_mem _ mem)
    _ = instr.values := instr.values_entries

end Encoded

/-! ## Decoding -/

/-- What decoding takes out of the slots. -/
theorem values_ofOpcode (op : Opcode) (word : Word) :
    ((ofOpcode op word).rename Fin.val).values =
      op.slots.map fun slot => slot.value word.widen := by
  cases op with
  | loadImmediate =>
      simp only [ofOpcode, rename, values, ← Slot.value_immediate]
      rfl
  | halt | unmap | output | input | map | loadProgram | conditionalMove | load | store | add
  | multiply | divide | nand => rfl

theorem entries_ofOpcode (op : Opcode) (word : Word) :
    ((ofOpcode op word).rename Fin.val).entries =
      op.slots.map fun slot => (slot, slot.value word.widen) := by
  rw [entries, values_ofOpcode, opcode_rename, opcode_ofOpcode, List.map_prod_left_eq_zip]

/-- Decoding undoes encoding. -/
theorem decode_of_encode {instr : Instr Nat} {word : Word} (encoded : instr.encode = .ok word) :
    ∃ instruction, decode word = .ok instruction ∧ instruction.rename Fin.val = instr := by
  refine ⟨ofOpcode instr.opcode word, ?_, ?_⟩
  · apply decode_eq_ok_iff.mpr
    refine ⟨instr.opcode, ?_, rfl⟩
    rw [Layout.opcodeNumber_eq, number_of_encode encoded]
  · apply eq_of_values
    · rw [opcode_rename, opcode_ofOpcode]
    · rw [values_ofOpcode, values_of_encode encoded]

/-- An instruction can be encoded if every operand fits its slot. Its word then decodes to it, has
its operation code at the top and zeros wherever no operand is, and is all of the bits that were
packed. If an operand does not fit, the first of them is reported with the width of its slot. -/
theorem encode_exact (instr : Instr Nat) :
    ((∃ word, instr.encode = .ok word) ↔
      ∀ entry ∈ instr.entries, entry.2 < 2 ^ entry.1.width) ∧
    (∀ word, instr.encode = .ok word →
      (∃ instruction, decode word = .ok instruction ∧ instruction.rename Fin.val = instr) ∧
      word.toNat / 2 ^ 28 = instr.opcode.number ∧
      (∀ i < 28, (∀ slot ∈ instr.opcode.slots, i ∉ slot) → word.toNat.testBit i = false) ∧
      instr.packed = .ok word.widen) ∧
    (∀ overflow, instr.encode = .error overflow ↔
      ∃ before entry after, instr.entries = before ++ entry :: after ∧
        (2 ^ entry.1.width ≤ entry.2 ∧ overflow = ⟨entry.2, entry.1.width⟩) ∧
        ∀ earlier ∈ before, earlier.2 < 2 ^ earlier.1.width) := by
  refine ⟨⟨?_, ?_⟩, ?_, ?_⟩
  · rintro ⟨word, encoded⟩
    exact fits_of_encode encoded
  · intro fits
    exact ⟨_, encode_of_fits fits⟩
  · intro word encoded
    refine ⟨decode_of_encode encoded, number_of_encode encoded, ?_, ?_⟩
    · intro i low outside
      rw [← Word.getLsbD_widen]
      apply getLsbD_of_encode encoded
      rintro ⟨slot, mem, inside⟩
      rcases List.mem_cons.mp mem with rfl | operand
      · exact Nat.not_le.mpr low (Slot.mem_iff.mp inside).1
      · exact outside slot operand inside
    · rw [widen_of_encode encoded]
      exact packed_of_fits (fits_of_encode encoded)
  · intro overflow
    rw [encode_eq_error_iff, List.findSome?_eq_some_iff]
    simp only [Slot.overflow?_eq_some_iff, Slot.overflow?_eq_none_iff]

/-! ## The normal form of a word -/

/-- Two words decode to the same instruction if they agree in every slot that has a meaning. -/
theorem decode_eq_iff {op : Opcode} {word other : Word} (number : op.number = word.toNat / 2 ^ 28) :
    decode other = .ok (ofOpcode op word) ↔
      ∀ slot ∈ op.layout, slot.value other.widen = slot.value word.widen := by
  rw [decode_eq_ok_iff, Opcode.layout, List.forall_mem_cons, Slot.value_opcode, Slot.value_opcode,
    ← number]
  constructor
  · rintro ⟨op', number', same⟩
    obtain rfl : op = op' := by
      rw [← opcode_ofOpcode op word, same, opcode_ofOpcode]
    refine ⟨by rw [number', Layout.opcodeNumber_eq], ?_⟩
    have values := congrArg (fun instruction => (instruction.rename Fin.val).values) same
    rw [values_ofOpcode, values_ofOpcode, List.map_inj_left] at values
    exact fun slot mem => (values slot mem).symm
  · rintro ⟨top, slots⟩
    refine ⟨op, by rw [Layout.opcodeNumber_eq, top], ?_⟩
    apply rename_injective Fin.val_injective
    apply eq_of_values
    · simp
    · rw [values_ofOpcode, values_ofOpcode, List.map_inj_left]
      exact fun slot mem => (slots slot mem).symm

theorem forall_uses_iff (op : Opcode) (word other : Word) :
    (∀ slot ∈ op.layout, slot.value other.widen = slot.value word.widen) ↔
      ∀ i, op.Uses i → other.toNat.testBit i = word.toNat.testBit i := by
  simp only [Slot.value_eq_iff, Word.getLsbD_widen]
  constructor
  · rintro same i ⟨slot, mem, inside⟩
    exact same slot mem i inside
  · intro same slot mem i inside
    exact same i ⟨slot, mem, inside⟩

/-- A word with an assigned operation code is encoded again as itself, with zeros in place of
the bits that have no meaning. -/
theorem encode_ofOpcode {op : Opcode} {word : Word} (number : op.number = word.toNat / 2 ^ 28) :
    ∃ normal, ((ofOpcode op word).rename Fin.val).encode = .ok normal ∧
      (∀ slot ∈ op.layout, slot.value normal.widen = slot.value word.widen) ∧
      ∀ i, ¬ op.Uses i → normal.toNat.testBit i = false := by
  let instr := (ofOpcode op word).rename Fin.val
  have same_op : instr.opcode = op := by
    rw [opcode_rename, opcode_ofOpcode]
  have values : instr.values = op.slots.map fun slot => slot.value word.widen :=
    values_ofOpcode op word
  have fits : instr.Fits := by
    rw [Fits, entries_ofOpcode, List.forall_mem_map]
    exact fun slot _ => slot.value_lt word.widen
  have encoded := encode_of_fits fits
  refine ⟨_, encoded, ?_, ?_⟩
  · rw [Opcode.layout, List.forall_mem_cons, Slot.value_opcode, Slot.value_opcode,
      number_of_encode encoded, same_op]
    refine ⟨number, ?_⟩
    rw [← List.map_inj_left, ← values, ← values_of_encode encoded, same_op]
  · intro i unused
    rw [← Word.getLsbD_widen]
    exact getLsbD_of_encode encoded (same_op ▸ unused)

/-- A word decodes if its operation code is assigned. It is then encoded again as itself, with
zeros in place of the bits that have no meaning, and this decodes in the same way. The words that
do so are those that agree with it on the bits that have a meaning. -/
theorem reencode_normalises (word : Word) :
    (∀ fault, decode word = .error fault ↔
      14 ≤ word.toNat / 2 ^ 28 ∧ fault = .invalidOpcode (word.toNat / 2 ^ 28) word) ∧
    (word.toNat / 2 ^ 28 < 14 →
      ∃ (op : Opcode) (instruction : Instruction) (normal : Word),
        op.number = word.toNat / 2 ^ 28 ∧ decode word = .ok instruction ∧
        (instruction.rename Fin.val).encode = .ok normal ∧
        (∀ i, normal.toNat.testBit i = true ↔ word.toNat.testBit i = true ∧ op.Uses i) ∧
        decode normal = .ok instruction ∧
        ∀ other, decode other = decode word ↔
          ∀ i, op.Uses i → other.toNat.testBit i = word.toNat.testBit i) := by
  refine ⟨fun fault => decode_eq_error_iff, ?_⟩
  intro assigned
  obtain ⟨op, number⟩ := Opcode.exists_number_eq assigned
  have decoded : decode word = .ok (ofOpcode op word) :=
    (decode_eq_iff number).mpr fun slot _ => rfl
  obtain ⟨normal, encoded, same, unused⟩ := encode_ofOpcode number
  refine ⟨op, ofOpcode op word, normal, number, decoded, encoded, ?_, ?_, ?_⟩
  · intro i
    by_cases used : op.Uses i
    · rw [(forall_uses_iff op word normal).mp same i used, and_iff_left used]
    · rw [unused i used]
      simp [used]
  · exact (decode_eq_iff number).mpr same
  · intro other
    rw [decoded, decode_eq_iff number, forall_uses_iff]

end Instr

end UniversalMachine
