import UniversalMachine.Proofs.InstructionWord
import Mathlib.Data.List.Basic

/-!
# Lines of a listing

A line falls into parts at its blanks and commas. The first part is the mnemonic, and there is one
part for each operand. No two operations share a mnemonic and no two numbers their digits, so the
parts tell the instruction. Words that are listed alike are those with the same normal form.
-/

namespace UniversalMachine

/-! ## The parts of a line -/

namespace Line

/-- Whether a character stands between two parts of a line. -/
def separates (c : Char) : Bool :=
  c == ' ' || c == ','

/-- The parts of a line. -/
def parts (line : List Char) : List (List Char) :=
  (line.splitOnP separates).filter fun part => part ≠ []

/-- A text that is a single part. -/
def Solid (part : List Char) : Prop :=
  part ≠ [] ∧ ∀ c ∈ part, separates c = false

instance (part : List Char) : Decidable (Solid part) :=
  decidable_of_iff (part ≠ [] ∧ (part.all fun c => !separates c) = true) (by simp [Solid])

theorem parts_append_cons {c : Char} (separated : separates c = true) (before after : List Char) :
    parts (before ++ c :: after) = parts before ++ parts after := by
  rw [parts, List.splitOnP_append_cons before after separated, List.filter_append]
  rfl

theorem parts_cons {c : Char} (separated : separates c = true) (after : List Char) :
    parts (c :: after) = parts after := by
  have first : parts ([] ++ c :: after) = parts [] ++ parts after :=
    parts_append_cons separated [] after
  exact first

theorem Solid.parts {part : List Char} (solid : Solid part) : parts part = [part] := by
  rw [Line.parts, List.splitOnP_eq_singleton solid.2]
  simp [solid.1]

/-- Parts with commas and blanks between them are found again. -/
theorem parts_intercalate {texts : List (List Char)} (solid : ∀ text ∈ texts, Solid text) :
    parts ([',', ' '].intercalate texts) = texts := by
  induction texts with
  | nil => rfl
  | cons text rest ih =>
      rw [List.forall_mem_cons] at solid
      cases rest with
      | nil =>
          rw [List.intercalate_singleton]
          exact solid.1.parts
      | cons next rest =>
          rw [List.intercalate_cons_cons, List.append_assoc]
          calc
            parts (text ++ ',' :: ' ' :: [',', ' '].intercalate (next :: rest)) =
                parts text ++ parts ([',', ' '].intercalate (next :: rest)) := by
              rw [parts_append_cons rfl, parts_cons rfl]
            _ = text :: next :: rest := by
              rw [solid.1.parts, ih solid.2]
              rfl

end Line

/-! ## What is written for an operation and its operands -/

namespace Opcode

theorem ofMnemonic?_mnemonic (op : Opcode) : ofMnemonic? op.mnemonic = some op := by
  cases op <;> decide

theorem mnemonic_injective : Function.Injective mnemonic := by
  intro op other same
  rw [← Option.some_inj, ← ofMnemonic?_mnemonic op, same, ofMnemonic?_mnemonic]

theorem solid_mnemonic (op : Opcode) : Line.Solid op.mnemonic.toList := by
  cases op <;> decide

end Opcode

namespace Line

theorem toList_number (n : Nat) : (toString n).toList = Nat.toDigits 10 n :=
  Nat.toList_repr

theorem toList_register (n : Nat) :
    (Register.name n).toList = 'r' :: Nat.toDigits 10 n := by
  rw [Register.name, String.toList_append, toList_number]
  rfl

theorem number_injective : Function.Injective fun n : Nat => toString n := by
  intro m n same
  have digits : Nat.toDigits 10 m = Nat.toDigits 10 n := by
    rw [← toList_number, ← toList_number]
    exact congrArg String.toList same
  calc
    m = Nat.ofDigitChars 10 (Nat.toDigits 10 m) 0 := Nat.ofDigitChars_ten_toDigits.symm
    _ = Nat.ofDigitChars 10 (Nat.toDigits 10 n) 0 := by rw [digits]
    _ = n := Nat.ofDigitChars_ten_toDigits

/-- No digit ends a part. -/
theorem not_separates_digit {n : Nat} {c : Char} (mem : c ∈ Nat.toDigits 10 n) :
    separates c = false := by
  have digit : c.isDigit = true := Nat.isDigit_of_mem_toDigits (by decide) (Nat.le_refl 10) mem
  have no_blank : c ≠ ' ' := by
    rintro rfl
    cases digit
  have no_comma : c ≠ ',' := by
    rintro rfl
    cases digit
  simp [separates, no_blank, no_comma]

end Line

namespace Slot

/-- How an operand in a slot is written: an immediate value as a number, all else as the name of a
register. -/
def written (slot : Slot) (value : Nat) : String :=
  if slot = .immediate then toString value else Register.name value

theorem written_injective (slot : Slot) : Function.Injective slot.written := by
  intro m n same
  unfold written at same
  split at same
  · exact Line.number_injective same
  · exact Line.number_injective ((String.append_right_inj _).mp same)

/-- A slot with what is written for the operand in it. -/
def label (entry : Slot × Nat) : Slot × String :=
  (entry.1, entry.1.written entry.2)

theorem label_injective : Function.Injective label := by
  intro entry other same
  obtain ⟨slots, texts⟩ := Prod.mk.inj same
  rw [slots] at texts
  exact Prod.ext slots (other.1.written_injective texts)

theorem solid_written (slot : Slot) (value : Nat) : Line.Solid (slot.written value).toList := by
  unfold written
  split
  · rw [Line.toList_number]
    exact ⟨Nat.toDigits_ne_nil, fun c mem => Line.not_separates_digit mem⟩
  · rw [Line.toList_register]
    refine ⟨List.cons_ne_nil _ _, ?_⟩
    rw [List.forall_mem_cons]
    exact ⟨rfl, fun c mem => Line.not_separates_digit mem⟩

end Slot

namespace Instr

/-! ## The line of an instruction -/

theorem operandTexts_eq (instr : Instr Nat) :
    instr.operandTexts = instr.entries.map fun entry => entry.1.written entry.2 := by
  cases instr <;> rfl

theorem solid_operandTexts (instr : Instr Nat) :
    ∀ text ∈ instr.operandTexts.map String.toList, Line.Solid text := by
  rw [operandTexts_eq, List.map_map, List.forall_mem_map]
  exact fun entry _ => entry.1.solid_written entry.2

/-- The parts of the line are the mnemonic and the operands. -/
theorem parts_text (instr : Instr Nat) :
    Line.parts instr.text.toList =
      instr.opcode.mnemonic.toList :: instr.operandTexts.map String.toList := by
  have first := instr.opcode.solid_mnemonic.parts
  have others := Line.parts_intercalate instr.solid_operandTexts
  unfold text
  split
  · next none_written => rw [first, none_written, List.map_nil]
  · calc
      Line.parts (instr.opcode.mnemonic ++ " " ++ ", ".intercalate instr.operandTexts).toList =
          Line.parts (instr.opcode.mnemonic.toList ++
            ' ' :: [',', ' '].intercalate (instr.operandTexts.map String.toList)) := by
        rw [String.toList_append, String.toList_append, String.toList_intercalate,
          List.append_assoc]
        rfl
      _ = instr.opcode.mnemonic.toList :: instr.operandTexts.map String.toList := by
        rw [Line.parts_append_cons rfl, first, others]
        rfl

/-- What is written for the operands of an operation tells them. -/
theorem values_of_operandTexts {instr other : Instr Nat} (op : instr.opcode = other.opcode)
    (texts : instr.operandTexts = other.operandTexts) : instr.values = other.values := by
  have labelled (instr : Instr Nat) :
      instr.entries.map Slot.label = instr.opcode.slots.zip instr.operandTexts := by
    rw [← slots_entries, operandTexts_eq, List.zip_map']
    rfl
  have entries : instr.entries = other.entries := by
    apply List.map_injective_iff.mpr Slot.label_injective
    rw [labelled, labelled, op, texts]
  rw [← values_entries, entries, values_entries]

theorem text_injective : Function.Injective text := by
  intro instr other same
  have parts := congrArg (fun line => Line.parts line.toList) same
  simp only [parts_text, List.cons.injEq] at parts
  obtain ⟨mnemonics, operands⟩ := parts
  have op : instr.opcode = other.opcode :=
    Opcode.mnemonic_injective (String.toList_inj.mp mnemonics)
  have texts : instr.operandTexts = other.operandTexts :=
    List.map_injective_iff.mpr (fun _ _ => String.toList_inj.mp) operands
  exact eq_of_values op (values_of_operandTexts op texts)

/-- No two instructions have the same line, whatever registers they name and whatever values they
load. Two words that decode are encoded again, and they are listed alike if and only if that gives
the same word. -/
theorem disassembly_unambiguous :
    (∀ instr other : Instr Nat, instr.text = other.text → instr = other) ∧
    ∀ (word other : Word) (instruction instruction' : Instruction),
      decode word = .ok instruction → decode other = .ok instruction' →
      ∃ normal normal' : Word, (instruction.rename Fin.val).encode = .ok normal ∧
        (instruction'.rename Fin.val).encode = .ok normal' ∧
        (instruction.text = instruction'.text ↔ normal = normal') := by
  refine ⟨fun instr other same => text_injective same, ?_⟩
  intro word other instruction instruction' decoded decoded'
  obtain ⟨op, number, rfl⟩ := decode_eq_ok_iff.mp decoded
  obtain ⟨op', number', rfl⟩ := decode_eq_ok_iff.mp decoded'
  rw [Layout.opcodeNumber_eq] at number number'
  obtain ⟨normal, encoded, -⟩ := encode_ofOpcode number
  obtain ⟨normal', encoded', -⟩ := encode_ofOpcode number'
  refine ⟨normal, normal', encoded, encoded', ?_⟩
  constructor
  · intro same
    have renamed := text_injective same
    rw [renamed, encoded'] at encoded
    exact (Except.ok.inj encoded).symm
  · rintro rfl
    obtain ⟨_, decoded_normal, renamed⟩ := decode_of_encode encoded
    obtain ⟨_, decoded_normal', renamed'⟩ := decode_of_encode encoded'
    rw [decoded_normal, Except.ok.injEq] at decoded_normal'
    rw [Instruction.text, ← renamed, decoded_normal', renamed']
    rfl

/-- An addition with noise between its operation code and its registers, against an addition that
was written by hand and against a multiplication of the same registers. -/
theorem disassembly_unambiguous_noisy :
    let sum : Instruction := .add 1 2 3
    let product : Instruction := .multiply 1 2 3
    decode 0x3ABCDE53 = .ok sum ∧ decode 0x4ABCDE53 = .ok product ∧
      (ofOpcode .add 0x3ABCDE53).text = "add r1, r2, r3" ∧
      (ofOpcode .add 0x3ABCDE53).rename Fin.val = .add 1 2 3 ∧
      ∃ normal normal' : Word, (sum.rename Fin.val).encode = .ok normal ∧
        (product.rename Fin.val).encode = .ok normal' ∧ normal ≠ normal' := by
  intro sum product
  have decoded : decode 0x3ABCDE53 = .ok sum := by decide
  have decoded' : decode 0x4ABCDE53 = .ok product := by decide
  have listed : (ofOpcode .add 0x3ABCDE53).text = "add r1, r2, r3" := by decide
  have listed_sum : (.add 1 2 3 : Instr Nat).text = "add r1, r2, r3" := by decide
  have other : sum.text ≠ product.text := by decide
  obtain ⟨normal, normal', encoded, encoded', alike⟩ :=
    disassembly_unambiguous.2 _ _ _ _ decoded decoded'
  exact ⟨decoded, decoded', listed,
    disassembly_unambiguous.1 _ _ (listed.trans listed_sum.symm),
    normal, normal', encoded, encoded', mt alike.mpr other⟩

end Instr

end UniversalMachine
