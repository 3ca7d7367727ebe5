import UniversalMachine.Proofs.DeviceFailure
import UniversalMachine.Proofs.InstructionTable
import UniversalMachine.Proofs.StoreRefusal

/-!
# The fault table

The table says which step fails and with what. Nothing is executed if the step limit is reached
or if there is no instruction at the program counter. Otherwise the operation decides, by what
the registers in its slots hold. A step fails exactly as the table says.
-/

namespace UniversalMachine

theorem OutputPolicy.byte?_eq_none_iff {policy : OutputPolicy} {word : Word} :
    policy.byte? word = none ↔ 256 ≤ word.toNat ∧ policy = .reject := by
  cases policy <;> simp [byte?]

namespace Machine

variable {machine : Machine} {fault : Fault}

/-! ## The table -/

/-- There is no instruction at the program counter. -/
inductive FetchFails (machine : Machine) : Fault → Prop where
  | unmapped (missing : machine.store.find? .program = none) :
      FetchFails machine (.unmappedSegment .program)
  | outside {program : Segment} (mapped : machine.store.find? .program = some program)
      (past : program.size ≤ machine.pc.toNat) :
      FetchFails machine (.pcOutOfBounds machine.pc program.size)
  | unassigned {word : Word} (fetched : machine.store.read .program machine.pc = .ok word)
      (number : 14 ≤ word.toNat / 2 ^ 28) :
      FetchFails machine (.invalidOpcode (word.toNat / 2 ^ 28) word)

/-- The step limit, if there is one, allows another instruction. -/
def WithinLimit (machine : Machine) : Prop :=
  ∀ limit, machine.config.stepLimit = some limit → machine.profile.steps < limit

/-- A step fails before anything is executed. -/
inductive Refused (machine : Machine) : Fault → Prop where
  | limit {limit : Nat} (limited : machine.config.stepLimit = some limit)
      (reached : limit ≤ machine.profile.steps) : Refused machine (.stepLimitExceeded limit)
  | fetch {fault : Fault} (within : machine.WithinLimit) (fails : machine.FetchFails fault) :
      Refused machine fault

/-- An operation fails, with or without memory for a new segment, and with the registers in the
slots A, B and C of the instruction word. -/
def OperationFails (machine : Machine) (memory : Bool) (a b c : Register) (fault : Fault) :
    Opcode → Prop
  | .load => machine.store.CellFails (machine.handle b) (machine.word c) fault
  | .store => machine.store.CellFails (machine.handle a) (machine.word b) fault
  | .divide => machine.word c = 0 ∧ fault = .divideByZero
  | .map =>
    (memory = false ∧ fault = .allocationFailed (machine.word c).toNat) ∨
    (memory = true ∧ (∀ handle, ∃ words, machine.store.find? handle = some words) ∧
      fault = .handlesExhausted)
  | .unmap =>
    (machine.word c = 0 ∧ fault = .unmapSegmentZero) ∨
    (machine.word c ≠ 0 ∧ machine.store.find? (machine.handle c) = none ∧
      fault = .unmappedSegment (machine.handle c))
  | .output =>
    (256 ≤ (machine.word c).toNat ∧ machine.config.outputPolicy = .reject ∧
      fault = .outputOutOfRange (machine.word c)) ∨
    (((machine.word c).toNat < 256 ∨ machine.config.outputPolicy = .truncate) ∧
      ∃ error, machine.channels.WriteFails error ∧ fault = .channel error)
  | .input =>
    ∃ error, (machine.channels.FlushFails error ∨
      (∀ failure, ¬ machine.channels.FlushFails failure) ∧ machine.channels.ReadFails error) ∧
      fault = .channel error
  | .loadProgram =>
    machine.word b ≠ 0 ∧ machine.store.find? (machine.handle b) = none ∧
      fault = .unmappedSegment (machine.handle b)
  | .conditionalMove | .add | .multiply | .nand | .halt | .loadImmediate => False

/-- Whether there is memory for a segment that the next step maps. The step is counted before it
asks. -/
def hasMemoryNext (machine : Machine) : Bool :=
  machine.config.hasMemory (machine.profile.steps + 1)

theorem hasMemory_enter (machine : Machine) (instruction : Instruction) :
    (machine.enter instruction).hasMemory = machine.hasMemoryNext := by
  rw [hasMemory, hasMemoryNext, enter, Profile.steps_record]

/-- A step of a running machine fails. -/
inductive Fails (machine : Machine) : Fault → Prop where
  | refused {fault : Fault} (refused : machine.Refused fault) : Fails machine fault
  | operation {fault : Fault} {word : Word} {op : Opcode} (within : machine.WithinLimit)
      (fetched : machine.store.read .program machine.pc = .ok word)
      (number : op.number = word.toNat / 2 ^ 28)
      (fails : machine.OperationFails machine.hasMemoryNext (View.slot word.toNat 6)
        (View.slot word.toNat 3) (View.slot word.toNat 0) fault op) : Fails machine fault

/-! ## Before anything is executed -/

theorem fetch_of_unmapped (missing : machine.store.find? .program = none) :
    machine.fetch = .error (.unmappedSegment .program) := by
  rw [fetch, Store.program, Store.segment_of_unmapped missing]

theorem fetch_of_outside {program : Segment} (mapped : machine.store.find? .program = some program)
    (past : program.size ≤ machine.pc.toNat) :
    machine.fetch = .error (.pcOutOfBounds machine.pc program.size) := by
  rw [fetch, Store.program, Store.segment_of_find? mapped]
  simp only [Array.getElem?_eq_none past]

theorem fetch_of_read {word : Word} (fetched : machine.store.read .program machine.pc = .ok word) :
    machine.fetch = Instr.decode word := by
  obtain ⟨program, mapped, cell⟩ := Store.read_cases fetched
  rw [fetch, Store.program, Store.segment_of_find? mapped]
  simp only [cell]

theorem fetch_eq_error_iff : machine.fetch = .error fault ↔ machine.FetchFails fault := by
  constructor
  · intro failed
    cases mapped : machine.store.find? .program with
    | none =>
        rw [fetch_of_unmapped mapped] at failed
        cases failed
        exact .unmapped mapped
    | some program =>
        by_cases inside : machine.pc.toNat < program.size
        · have cell := Array.getElem?_eq_getElem inside
          have fetched := Store.read_of_getElem? mapped cell
          rw [fetch_of_read fetched, Instr.decode_eq_error_iff] at failed
          obtain ⟨number, rfl⟩ := failed
          exact .unassigned fetched number
        · have past := Nat.le_of_not_lt inside
          rw [fetch_of_outside mapped past] at failed
          cases failed
          exact .outside mapped past
  · intro fails
    cases fails with
    | unmapped missing => exact fetch_of_unmapped missing
    | outside mapped past => exact fetch_of_outside mapped past
    | unassigned fetched number =>
        rw [fetch_of_read fetched, Instr.decode_eq_error_iff]
        exact ⟨number, rfl⟩

theorem upcoming_of_withinLimit (within : machine.WithinLimit) :
    machine.upcoming = machine.fetch := by
  unfold upcoming
  split
  · rfl
  · next limit limited => exact if_neg (Nat.not_le.mpr (within limit limited))

theorem upcoming_of_limit {limit : Nat} (limited : machine.config.stepLimit = some limit)
    (reached : limit ≤ machine.profile.steps) :
    machine.upcoming = .error (.stepLimitExceeded limit) := by
  rw [upcoming, limited]
  exact if_pos reached

theorem withinLimit_or_limit (machine : Machine) :
    machine.WithinLimit ∨
      ∃ limit, machine.config.stepLimit = some limit ∧ limit ≤ machine.profile.steps := by
  by_cases within : machine.WithinLimit
  · exact .inl within
  · right
    simpa [WithinLimit] using within

theorem upcoming_eq_error_iff : machine.upcoming = .error fault ↔ machine.Refused fault := by
  constructor
  · intro refused
    rcases machine.withinLimit_or_limit with within | ⟨limit, limited, reached⟩
    · rw [upcoming_of_withinLimit within, fetch_eq_error_iff] at refused
      exact .fetch within refused
    · rw [upcoming_of_limit limited reached] at refused
      cases refused
      exact .limit limited reached
  · intro refused
    cases refused with
    | limit limited reached => exact upcoming_of_limit limited reached
    | fetch within fails =>
        rw [upcoming_of_withinLimit within]
        exact fetch_eq_error_iff.mpr fails

/-- An instruction is executed if the limit allows it and the word at the program counter has an
assigned operation code. -/
theorem upcoming_eq_ok_iff {instruction : Instruction} :
    machine.upcoming = .ok instruction ↔
      machine.WithinLimit ∧ ∃ word op, machine.store.read .program machine.pc = .ok word ∧
        op.number = word.toNat / 2 ^ 28 ∧ instruction = Instr.ofOpcode op word := by
  constructor
  · intro upcoming
    rcases machine.withinLimit_or_limit with within | ⟨limit, limited, reached⟩
    · obtain ⟨word, fetched, decoded⟩ := fetch_cases (fetch_of_upcoming upcoming)
      obtain ⟨op, number, same⟩ := Instr.decode_eq_ok_iff.mp decoded
      rw [Layout.opcodeNumber_eq] at number
      exact ⟨within, word, op, fetched, number, same⟩
    · rw [upcoming_of_limit limited reached] at upcoming
      cases upcoming
  · rintro ⟨within, word, op, fetched, number, rfl⟩
    rw [upcoming_of_withinLimit within, fetch_of_read fetched, Instr.decode_eq_ok_iff]
    exact ⟨op, by rw [number, Layout.opcodeNumber_eq], rfl⟩

/-! ## One operation -/

section Operations

variable {handle : Handle} {offset value : Word} {out : Register}

theorem load_eq_error_iff :
    (machine.load out handle offset).1 = .error fault ↔
      machine.store.CellFails handle offset fault := by
  rw [← Store.read_eq_error_iff, load]
  cases machine.store.read handle offset <;> simp

theorem resume_eq_error_iff {written : Except Fault Store} :
    (machine.resume written).1 = .error fault ↔ written = .error fault := by
  cases written <;> simp [resume]

theorem map_eq_error_iff (wf : machine.store.WellFormed) {length : Nat} :
    (machine.map out length).1 = .error fault ↔
      (machine.hasMemory = false ∧ fault = .allocationFailed length) ∨
      (machine.hasMemory = true ∧ (∀ handle, ∃ words, machine.store.find? handle = some words) ∧
        fault = .handlesExhausted) := by
  rw [← wf.allocate_eq_error_iff, map]
  simp only [takeStore]
  cases machine.store.allocate length machine.hasMemory <;> simp

theorem unmap_eq_error_iff :
    (machine.unmap handle).1 = .error fault ↔ machine.store.free handle = .error fault := by
  simp only [unmap, takeStore]
  cases machine.store.free handle <;> simp

theorem jump_eq_error_iff {target : Word} :
    (machine.jump handle target).1 = .error fault ↔
      handle ≠ .program ∧ machine.store.find? handle = none ∧
        fault = .unmappedSegment handle := by
  rw [← Store.install_eq_error_iff, jump]
  by_cases itself : handle = .program
  · simp [itself]
  · simp only [itself, if_false, takeStore]
    cases machine.store.install handle <;> simp [itself]

theorem output_eq_error_iff :
    (machine.output value).1 = .error fault ↔
      (256 ≤ value.toNat ∧ machine.config.outputPolicy = .reject ∧
        fault = .outputOutOfRange value) ∨
      ((value.toNat < 256 ∨ machine.config.outputPolicy = .truncate) ∧
        ∃ error, machine.channels.WriteFails error ∧ fault = .channel error) := by
  cases allowed : machine.config.outputPolicy.byte? value with
  | none =>
      obtain ⟨wide, reject⟩ := OutputPolicy.byte?_eq_none_iff.mp allowed
      have refused : machine.output value = (.error (.outputOutOfRange value), machine) := by
        rw [output, allowed]
      simp [refused, wide, reject, Nat.not_lt.mpr wide, eq_comm]
  | some byte =>
      obtain ⟨fits, -⟩ := OutputPolicy.byte?_eq_some_iff.mp allowed
      have not_refused :
          ¬ (256 ≤ value.toNat ∧ machine.config.outputPolicy = .reject) := by
        rw [← OutputPolicy.byte?_eq_none_iff, allowed]
        exact Option.some_ne_none byte
      rw [← and_assoc, or_iff_right (fun wide => not_refused wide.1), and_iff_right fits]
      -- Both sides now speak of one byte, and of whether it can be delivered.
      have writes (error : ChannelError) : machine.channels.WriteFails error ↔
          (machine.channels.deliver byte).1 = .error error := Channels.deliver_eq_error_iff.symm
      simp only [writes, output, allowed, takeChannels]
      generalize machine.channels.deliver byte = answer
      obtain ⟨delivered, channels⟩ := answer
      cases delivered <;> simp [eq_comm]

theorem input_eq_error_iff :
    (machine.input out).1 = .error fault ↔
      ∃ error, (machine.channels.FlushFails error ∨
        (∀ failure, ¬ machine.channels.FlushFails failure) ∧ machine.channels.ReadFails error) ∧
        fault = .channel error := by
  simp only [← Channels.receive_eq_error_iff, input, takeChannels]
  generalize machine.channels.receive = answer
  obtain ⟨received, channels⟩ := answer
  cases received <;> simp [eq_comm]

/-- An operation fails exactly as its row of the table says. -/
theorem execute_eq_error_iff (wf : machine.store.WellFormed) (op : Opcode) (word : Word) :
    (machine.execute (Instr.ofOpcode op word)).1 = .error fault ↔
      machine.OperationFails machine.hasMemory (View.slot word.toNat 6) (View.slot word.toNat 3)
        (View.slot word.toNat 0) fault op := by
  have slotA : View.slot word.toNat 6 = Layout.register Layout.slotA word :=
    slot_eq Layout.slotA word
  have slotB : View.slot word.toNat 3 = Layout.register Layout.slotB word :=
    slot_eq Layout.slotB word
  have slotC : View.slot word.toNat 0 = Layout.register Layout.slotC word :=
    slot_eq Layout.slotC word
  rw [slotA, slotB, slotC]
  cases op with
  | load => exact load_eq_error_iff
  | store => exact resume_eq_error_iff.trans Store.write_eq_error_iff
  | divide =>
      simp only [Instr.ofOpcode, execute, OperationFails]
      split <;> simp_all [eq_comm]
  | map => exact map_eq_error_iff wf
  | unmap =>
      simp only [OperationFails, ne_eq, ← handle_eq_program_iff]
      exact unmap_eq_error_iff.trans Store.free_eq_error_iff
  | output => exact output_eq_error_iff
  | input => exact input_eq_error_iff
  | loadProgram =>
      simp only [OperationFails, ne_eq, ← handle_eq_program_iff]
      exact jump_eq_error_iff
  | conditionalMove =>
      simp only [Instr.ofOpcode, execute, OperationFails]
      split <;> simp
  | add | multiply | nand | halt | loadImmediate => simp [Instr.ofOpcode, execute, OperationFails]

end Operations

/-! ## One step -/

/-- Counting an instruction changes nothing that the table asks for but whether there is memory. -/
theorem execute_enter_eq_error_iff (wf : machine.store.WellFormed) (op : Opcode) (word : Word) :
    ((machine.enter (Instr.ofOpcode op word)).execute (Instr.ofOpcode op word)).1 = .error fault ↔
      machine.OperationFails machine.hasMemoryNext (View.slot word.toNat 6)
        (View.slot word.toNat 3) (View.slot word.toNat 0) fault op := by
  have entered : (machine.enter (Instr.ofOpcode op word)).store.WellFormed := wf
  rw [execute_eq_error_iff entered, hasMemory_enter]
  cases op <;> rfl

theorem step_eq_error_iff (wf : machine.store.WellFormed) (running : machine.status = .running) :
    machine.step.1 = .error fault ↔ machine.Fails fault := by
  constructor
  · intro answered
    have failed : machine.step = (.error fault, machine.step.2) := Prod.ext answered rfl
    rcases (step_eq_error failed).2 with ⟨upcoming, -⟩ | ⟨instruction, after, upcoming, executed, -⟩
    · exact .refused (upcoming_eq_error_iff.mp upcoming)
    · obtain ⟨within, word, op, fetched, number, rfl⟩ := upcoming_eq_ok_iff.mp upcoming
      exact .operation within fetched number
        ((execute_enter_eq_error_iff wf op word).mp (congrArg Prod.fst executed))
  · intro fails
    cases fails with
    | refused refused => rw [step_of_refused running (upcoming_eq_error_iff.mpr refused)]
    | @operation word op within fetched number fails =>
        have upcoming := upcoming_eq_ok_iff.mpr ⟨within, word, op, fetched, number, rfl⟩
        have failed := (execute_enter_eq_error_iff wf op word).mpr fails
        rw [step_of_failed running upcoming (Prod.ext failed rfl)]

/-- If a segment is said to be unmapped, it is. -/
theorem Fails.unmapped {handle : Handle} (fails : machine.Fails (.unmappedSegment handle)) :
    machine.store.find? handle = none := by
  cases fails with
  | refused refused =>
      cases refused with
      | fetch within fails =>
          cases fails with
          | unmapped missing => exact missing
  | @operation word op within fetched number fails =>
      cases op with
      | load | store =>
          cases fails with
          | unmapped missing => exact missing
      | unmap =>
          rcases fails with ⟨-, other⟩ | ⟨-, missing, same⟩
          · cases other
          · cases same
            exact missing
      | loadProgram =>
          obtain ⟨-, missing, same⟩ := fails
          cases same
          exact missing
      | output =>
          rcases fails with ⟨-, -, other⟩ | ⟨-, error, -, other⟩ <;> cases other
      | input =>
          obtain ⟨error, -, other⟩ := fails
          cases other
      | divide => cases fails.2
      | map => rcases fails with ⟨-, other⟩ | ⟨-, -, other⟩ <;> cases other
      | conditionalMove | add | multiply | nand | halt | loadImmediate => exact fails.elim

/-- Reading the instruction at the program counter goes past the end of the program, or finds a
word that is none. -/
def FetchFault : Fault → Prop
  | .pcOutOfBounds .. | .invalidOpcode .. => True
  | _ => False

/-- No operation fails like that. -/
theorem OperationFails.not_fetchFault {memory : Bool} {a b c : Register} {op : Opcode}
    (fails : machine.OperationFails memory a b c fault op) : ¬ FetchFault fault := by
  cases op with
  | load | store => cases fails <;> exact not_false
  | divide =>
      obtain ⟨-, rfl⟩ := fails
      exact not_false
  | map | unmap => rcases fails with ⟨-, rfl⟩ | ⟨-, -, rfl⟩ <;> exact not_false
  | output => rcases fails with ⟨-, -, rfl⟩ | ⟨-, error, -, rfl⟩ <;> exact not_false
  | input =>
      obtain ⟨error, -, rfl⟩ := fails
      exact not_false
  | loadProgram =>
      obtain ⟨-, -, rfl⟩ := fails
      exact not_false
  | conditionalMove | add | multiply | nand | halt | loadImmediate => exact fails.elim

theorem Fails.fetch (fails : machine.Fails fault) (fetching : FetchFault fault) :
    machine.WithinLimit ∧ machine.FetchFails fault := by
  cases fails with
  | refused refused =>
      cases refused with
      | limit => exact fetching.elim
      | fetch within fails => exact ⟨within, fails⟩
  | operation within fetched number fails => exact absurd fetching fails.not_fetchFault

/-- A step of a running machine fails exactly as the table says, whatever history its store
has. -/
theorem step_fails_iff {history : List Store.Call} (running : machine.status = .running)
    (reached : machine.store = (∅ : Store).after history) :
    machine.step.1 = .error fault ↔ machine.Fails fault := by
  have wf : machine.store.WellFormed := reached ▸ Store.wellFormed_after history
  exact step_eq_error_iff wf running

/-- A read of a segment that was mapped once, with one register for the handle, the offset and the
result. -/
theorem step_fails_iff_unmapped :
    let history : List Store.Call :=
      [.allocate 1, .allocate 2, .free ⟨1⟩, .write .program 0 0x10000049]
    let machine : Machine :=
      { registers := Registers.zeroed.put 1 1
        store := (∅ : Store).after history
        channels := { input := [] } }
    machine.status = .running ∧ machine.step.1 = .error (.unmappedSegment ⟨1⟩) ∧
    machine.Fails (.unmappedSegment ⟨1⟩) := by
  intro history machine
  have failed : machine.step.1 = .error (.unmappedSegment ⟨1⟩) := by decide +kernel
  exact ⟨rfl, failed, (step_fails_iff rfl rfl).mp failed⟩

/-- The most words that a register can ask for, when the host has no memory for them. -/
example :
    let machine : Machine :=
      { registers := Registers.zeroed.put 1 0xFFFFFFFF
        store := (∅ : Store).after [.allocate 1, .write .program 0 0x80000011]
        channels := { input := [] }
        config := { shortages := [1] } }
    machine.step.1 = .error (.allocationFailed 0xFFFFFFFF) := by
  decide +kernel

end Machine

end UniversalMachine
