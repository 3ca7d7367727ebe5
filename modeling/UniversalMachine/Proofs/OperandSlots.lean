import UniversalMachine.Proofs.InstructionWord

/-!
# Two ways to take a word apart

A word can be taken apart without regard to its operation, into three registers or into a register
and an immediate value. Decoding it takes only the slots that the operation uses. Both find the
same operand in the same slot, and both find what encoding has put there.
-/

namespace UniversalMachine

namespace Operands

variable {ρ σ : Type}

/-- The same operands with every register renamed. -/
def rename (f : ρ → σ) : Operands ρ → Operands σ
  | registers a b c => registers (f a) (f b) (f c)
  | immediate a value => immediate (f a) value

/-- The operands with the slots that hold them. -/
def entries : Operands Nat → List (Slot × Nat)
  | registers a b c => [(.a, a), (.b, b), (.c, c)]
  | immediate a value => [(.target, a), (.immediate, value.toNat)]

theorem pack_entries (bits : BitVec 64) (operands : Operands Nat) :
    operands.pack bits = Slot.pack bits operands.entries := by
  cases operands with
  | registers a b c => exact Instr.pack_registers bits a b c
  | immediate a value => exact Instr.pack_immediate bits a value

/-- The slots that are looked at under an operation code, whether the operation uses them or not. -/
def slots (number : Nat) : List Slot :=
  if number = Opcode.loadImmediate.number then [.target, .immediate] else [.a, .b, .c]

theorem entries_ofWord (word : Word) :
    ((ofWord word).rename Fin.val).entries =
      (slots (Layout.opcodeNumber word)).map fun slot => (slot, slot.value word.widen) := by
  unfold ofWord slots
  split
  · rw [rename, entries, ← Slot.value_immediate]
    rfl
  · rfl

theorem mem_entries_ofWord_iff {word : Word} {entry : Slot × Nat} :
    entry ∈ ((ofWord word).rename Fin.val).entries ↔
      entry.1 ∈ slots (Layout.opcodeNumber word) ∧ entry.1.value word.widen = entry.2 := by
  rw [entries_ofWord, List.mem_map]
  constructor
  · rintro ⟨slot, mem, rfl⟩
    exact ⟨mem, rfl⟩
  · rintro ⟨mem, value⟩
    exact ⟨entry.1, mem, Prod.ext rfl value⟩

theorem isImmediate_ofWord_iff (word : Word) :
    (∃ a value, ofWord word = .immediate a value) ↔
      Layout.opcodeNumber word = Opcode.loadImmediate.number := by
  unfold ofWord
  split
  · next same => exact ⟨fun _ => same, fun _ => ⟨_, _, rfl⟩⟩
  · next other =>
      refine ⟨?_, fun same => absurd same other⟩
      rintro ⟨a, value, same⟩
      cases same

end Operands

namespace Opcode

theorem slots_subset (op : Opcode) : op.slots ⊆ Operands.slots op.number := by
  cases op <;> decide

/-- A slot that an operation does not use lies below or above each slot that has a meaning. -/
theorem apart_of_unused {op : Opcode} {slot : Slot} (mem : slot ∈ Operands.slots op.number)
    (unused : slot ∉ op.slots) : ∀ used ∈ op.layout, used.Apart slot := by
  have separate : ∀ slot ∈ Operands.slots op.number, slot ∉ op.slots → ∀ used ∈ op.layout,
      used.lsb + used.width ≤ slot.lsb ∨ slot.lsb + slot.width ≤ used.lsb := by
    cases op <;> decide
  intro used member
  rcases separate slot mem unused used member with below | above
  · exact Slot.apart_of_le below
  · exact fun i inside other => Slot.apart_of_le above i other inside

end Opcode

namespace Instr

section Encoded

variable {instr : Instr Nat} {word : Word} (encoded : instr.encode = .ok word)
include encoded

theorem opcodeNumber_of_encode : Layout.opcodeNumber word = instr.opcode.number := by
  rw [Layout.opcodeNumber_eq, number_of_encode encoded]

/-- Zero is in every slot that the operation does not use. -/
theorem value_of_unused {slot : Slot} (mem : slot ∈ Operands.slots instr.opcode.number)
    (unused : slot ∉ instr.opcode.slots) : slot.value word.widen = 0 := by
  have apart := Opcode.apart_of_unused mem unused
  rw [← slot.value_zero, Slot.value_eq_iff]
  intro i inside
  have meaningless : ¬ instr.opcode.Uses i := by
    rintro ⟨used, member, shared⟩
    exact apart used member i shared inside
  rw [getLsbD_of_encode encoded meaningless]
  exact BitVec.getLsbD_zero.symm

end Encoded

theorem decodes_iff (word : Word) :
    (∃ instruction, decode word = .ok instruction) ↔ Layout.opcodeNumber word < 14 := by
  constructor
  · rintro ⟨instruction, decoded⟩
    obtain ⟨op, number, -⟩ := decode_eq_ok_iff.mp decoded
    exact number ▸ op.number_lt
  · intro assigned
    obtain ⟨op, number⟩ := Opcode.exists_number_eq assigned
    exact ⟨ofOpcode op word, decode_eq_ok_iff.mpr ⟨op, number, rfl⟩⟩

/-- A word is taken apart into a register and an immediate value if its operation code is 13, and
decodes if this is below 14. The instruction then has that operation code, and each of its operands
is in the slot that holds it. If the word was encoded, the operation code and the operands in the
slots are those of what was encoded, and zero is in every other slot. -/
theorem decoders_agree (word : Word) :
    let number := Layout.opcodeNumber word
    let operands := (Operands.ofWord word).rename Fin.val
    ((∃ a value, Operands.ofWord word = .immediate a value) ↔ number = 13) ∧
    ((∃ instruction, decode word = .ok instruction) ↔ number < 14) ∧
    (∀ instruction, decode word = .ok instruction →
      instruction.opcode.number = number ∧
        ∀ entry ∈ (instruction.rename Fin.val).entries, entry ∈ operands.entries) ∧
    (∀ instr : Instr Nat, instr.encode = .ok word →
      number = instr.opcode.number ∧
        (∀ entry ∈ instr.entries, entry ∈ operands.entries) ∧
        ∀ entry ∈ operands.entries, entry.1 ∉ instr.opcode.slots → entry.2 = 0) := by
  intro number operands
  refine ⟨Operands.isImmediate_ofWord_iff word, decodes_iff word, ?_, ?_⟩
  · intro instruction decoded
    obtain ⟨op, same, rfl⟩ := decode_eq_ok_iff.mp decoded
    rw [opcode_ofOpcode, entries_ofOpcode, List.forall_mem_map]
    refine ⟨same, ?_⟩
    intro slot mem
    exact Operands.mem_entries_ofWord_iff.mpr ⟨same ▸ op.slots_subset mem, rfl⟩
  · intro instr encoded
    have same : Layout.opcodeNumber word = instr.opcode.number := opcodeNumber_of_encode encoded
    refine ⟨same, ?_, ?_⟩
    · intro entry mem
      have slot : entry.1 ∈ instr.opcode.slots := by
        rw [← slots_entries]
        exact List.mem_map_of_mem mem
      rw [Operands.mem_entries_ofWord_iff, same]
      exact ⟨instr.opcode.slots_subset slot,
        value_of_encode encoded entry (List.mem_cons_of_mem _ mem)⟩
    · intro entry mem unused
      rw [Operands.mem_entries_ofWord_iff, same] at mem
      rw [← mem.2]
      exact value_of_unused encoded mem.1 unused

/-- A mapping with noise above its registers and in the slot that it does not use, and the word that
it is encoded as. -/
theorem decoders_agree_map :
    let instr : Instr Nat := .map 1 2
    decode 0x8FFFFFCA = .ok (.map 1 2) ∧ instr.encode = .ok 0x8000000A ∧
      Operands.ofWord 0x8FFFFFCA = .registers 7 1 2 ∧
      (∀ entry ∈ instr.entries, entry ∈ [(Slot.a, 7), (Slot.b, 1), (Slot.c, 2)]) ∧
      Operands.ofWord 0x8000000A = .registers 0 1 2 ∧
      ∀ entry ∈ [(Slot.a, 0), (Slot.b, 1), (Slot.c, 2)],
        entry.1 ∉ instr.opcode.slots → entry.2 = 0 := by
  intro instr
  have decoded : decode 0x8FFFFFCA = .ok (.map 1 2) := by decide
  have encoded : instr.encode = .ok 0x8000000A := by decide
  obtain ⟨-, -, found, -⟩ := decoders_agree 0x8FFFFFCA
  obtain ⟨-, -, -, put⟩ := decoders_agree 0x8000000A
  exact ⟨decoded, encoded, by decide, (found _ decoded).2, by decide, (put _ encoded).2.2⟩

end Instr

end UniversalMachine
