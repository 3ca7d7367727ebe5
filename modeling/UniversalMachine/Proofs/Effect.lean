import UniversalMachine.Machine.Run

/-!
# What an instruction does

Most instructions do no more than put a word into a register. The others each ask the store or a
device for one thing, and what they do then is what the answer tells. What they do not ask for
they do not see.
-/

namespace UniversalMachine

namespace Machine

/-- The word in a register. -/
abbrev word (machine : Machine) (source : Register) : Word :=
  machine.registers.get source

/-- The handle in a register. -/
abbrev handle (machine : Machine) (source : Register) : Handle :=
  ⟨machine.registers.get source⟩

theorem handle_eq_program_iff {machine : Machine} {source : Register} :
    machine.handle source = .program ↔ machine.word source = 0 := by
  rw [Handle.program, Handle.mk.injEq]

/-! ## An exchange with a device -/

section Exchange

variable {machine : Machine} {channels : Channels} {value : Word}

theorem output_of_none (refused : machine.config.outputPolicy.byte? value = none) :
    machine.output value = (.error (.outputOutOfRange value), machine) := by
  rw [output, refused]

theorem output_of_some {byte : UInt8} {answer : Except ChannelError Unit}
    (allowed : machine.config.outputPolicy.byte? value = some byte)
    (delivered : machine.channels.deliver byte = (answer, channels)) :
    machine.output value =
      ((answer.mapError .channel).map fun _ => .advance, { machine with channels }) := by
  rw [output, allowed]
  simp only [takeChannels, delivered]
  cases answer <;> rfl

theorem input_of_ok {out : Register} {byte? : Option UInt8}
    (received : machine.channels.receive = (.ok byte?, channels)) :
    machine.input out = (.ok .advance, { machine with channels }.put out (inputWord byte?)) := by
  simp only [input, takeChannels, received]

theorem input_of_error {out : Register} {error : ChannelError}
    (failed : machine.channels.receive = (.error error, channels)) :
    machine.input out = (.error (.channel error), { machine with channels }) := by
  simp only [input, takeChannels, failed]

theorem input_channels (machine : Machine) (out : Register) :
    (machine.input out).2.channels = machine.channels.receive.2 := by
  cases answer : machine.channels.receive with
  | mk result channels =>
      cases result with
      | ok byte? => rw [input_of_ok answer, put]
      | error error => rw [input_of_error answer]

end Exchange

/-! ## The effects -/

/-- What an instruction makes of the machine, by what comes of it. One that is refused may leave
the machine without its store. -/
inductive Effect (machine : Machine) : Instruction → Except Fault Next → Machine → Prop where
  | computed {instruction : Instruction} {registers : Registers}
      (inner : instruction.opcode ∉ [.store, .halt, .map, .unmap, .output, .input, .loadProgram]) :
      Effect machine instruction (.ok .advance) { machine with registers }
  | halted : Effect machine .halt (.ok .halt) machine
  | wrote {seg offset val : Register} {store : Store}
      (written :
        machine.store.write (machine.handle seg) (machine.word offset) (machine.word val) =
          .ok store) :
      Effect machine (.store seg offset val) (.ok .advance) { machine with store }
  | mapped {out len : Register} {handle : Handle} {store : Store}
      (allocated : machine.store.allocate (machine.word len).toNat machine.hasMemory =
        .ok (handle, store)) :
      Effect machine (.map out len) (.ok .advance) { machine with
        registers := machine.registers.put out handle.word
        store
        log := machine.log.push (.store (.mapped handle (machine.word len).toNat)) }
  | unmapped {seg : Register} {store : Store}
      (freed : machine.store.free (machine.handle seg) = .ok store) :
      Effect machine (.unmap seg) (.ok .advance) { machine with
        store
        log := machine.log.push (.store (.unmapped (machine.handle seg))) }
  | jumped {seg target : Register} (itself : machine.handle seg = .program) :
      Effect machine (.loadProgram seg target) (.ok (.jump (machine.word target))) machine
  | installed {seg target : Register} {store : Store} (other : machine.handle seg ≠ .program)
      (installed : machine.store.install (machine.handle seg) = .ok store) :
      Effect machine (.loadProgram seg target) (.ok (.jump (machine.word target)))
        { machine with
          store
          log := machine.log.push (.store (.installed (machine.handle seg)
            ((store.find? (machine.handle seg)).elim 0 Array.size))) }
  | delivered {val : Register} {byte : UInt8} {channels : Channels}
      (allowed : machine.config.outputPolicy.byte? (machine.word val) = some byte)
      (delivered : machine.channels.deliver byte = (.ok (), channels)) :
      Effect machine (.output val) (.ok .advance) { machine with channels }
  | received {out : Register} {byte? : Option UInt8} {channels : Channels}
      (received : machine.channels.receive = (.ok byte?, channels)) :
      Effect machine (.input out) (.ok .advance) { machine with
        registers := machine.registers.put out (inputWord byte?)
        channels }
  | refused {instruction : Instruction} {fault : Fault} {store : Store} :
      Effect machine instruction (.error fault) { machine with store }
  | undelivered {val : Register} {byte : UInt8} {error : ChannelError} {channels : Channels}
      (allowed : machine.config.outputPolicy.byte? (machine.word val) = some byte)
      (failed : machine.channels.deliver byte = (.error error, channels)) :
      Effect machine (.output val) (.error (.channel error)) { machine with channels }
  | unreceived {out : Register} {error : ChannelError} {channels : Channels}
      (failed : machine.channels.receive = (.error error, channels)) :
      Effect machine (.input out) (.error (.channel error)) { machine with channels }

/-- What an instruction answers and leaves is an effect of it. -/
abbrev HasEffect (machine : Machine) (instruction : Instruction)
    (outcome : Except Fault Next × Machine) : Prop :=
  machine.Effect instruction outcome.1 outcome.2

theorem hasEffect_ite {machine : Machine} {instruction : Instruction} {condition : Prop}
    [Decidable condition] {first second : Except Fault Next × Machine}
    (yes : machine.HasEffect instruction first) (no : machine.HasEffect instruction second) :
    machine.HasEffect instruction (if condition then first else second) := by
  split
  · exact yes
  · exact no

section Operations

variable (machine : Machine) (out seg offset val len target : Register)

theorem hasEffect_load :
    machine.HasEffect (.load out seg offset)
      (machine.load out (machine.handle seg) (machine.word offset)) := by
  unfold load
  cases machine.store.read (machine.handle seg) (machine.word offset) with
  | ok word => exact .computed (by simp [Instr.opcode])
  | error fault => exact .refused

theorem hasEffect_write :
    machine.HasEffect (.store seg offset val)
      (machine.takeStore.2.resume
        (machine.store.write (machine.handle seg) (machine.word offset) (machine.word val))) := by
  cases written :
      machine.store.write (machine.handle seg) (machine.word offset) (machine.word val) with
  | ok store => exact .wrote written
  | error fault => exact .refused

theorem hasEffect_map :
    machine.HasEffect (.map out len) (machine.map out (machine.word len).toNat) := by
  simp only [map, takeStore]
  cases allocated : machine.store.allocate (machine.word len).toNat machine.hasMemory with
  | ok answer => exact .mapped allocated
  | error fault => exact .refused

theorem hasEffect_unmap :
    machine.HasEffect (.unmap seg) (machine.unmap (machine.handle seg)) := by
  simp only [unmap, takeStore]
  cases freed : machine.store.free (machine.handle seg) with
  | ok store => exact .unmapped freed
  | error fault => exact .refused

theorem hasEffect_jump :
    machine.HasEffect (.loadProgram seg target)
      (machine.jump (machine.handle seg) (machine.word target)) := by
  unfold jump
  by_cases itself : machine.handle seg = .program
  · rw [if_pos itself]
    exact .jumped itself
  · rw [if_neg itself]
    simp only [takeStore]
    cases installed : machine.store.install (machine.handle seg) with
    | ok store => exact .installed itself installed
    | error fault => exact .refused

theorem hasEffect_output : machine.HasEffect (.output val) (machine.output (machine.word val)) := by
  cases allowed : machine.config.outputPolicy.byte? (machine.word val) with
  | none =>
      rw [output_of_none allowed]
      exact .refused
  | some byte =>
      cases answer : machine.channels.deliver byte with
      | mk result channels =>
          rw [output_of_some allowed answer]
          cases result with
          | ok done => exact .delivered allowed answer
          | error error => exact .undelivered allowed answer

theorem hasEffect_input : machine.HasEffect (.input out) (machine.input out) := by
  cases answer : machine.channels.receive with
  | mk result channels =>
      cases result with
      | ok byte? =>
          rw [input_of_ok answer]
          exact .received answer
      | error error =>
          rw [input_of_error answer]
          exact .unreceived answer

end Operations

variable {machine after : Machine} {instruction : Instruction} {result : Except Fault Next}

theorem hasEffect_execute (machine : Machine) (instruction : Instruction) :
    machine.HasEffect instruction (machine.execute instruction) := by
  cases instruction with
  | load => exact hasEffect_load ..
  | store => exact hasEffect_write ..
  | map => exact hasEffect_map ..
  | unmap => exact hasEffect_unmap ..
  | output => exact hasEffect_output ..
  | input => exact hasEffect_input ..
  | loadProgram => exact hasEffect_jump ..
  | conditionalMove =>
      apply hasEffect_ite
      · exact .computed (by simp [Instr.opcode])
      · exact .computed (by simp [Instr.opcode])
  | divide =>
      apply hasEffect_ite
      · exact .refused
      · exact .computed (by simp [Instr.opcode])
  | halt => exact .halted
  | add | multiply | nand | loadImmediate => exact .computed (by simp [Instr.opcode])

/-- Whatever an instruction did can be told by cases of its effect. -/
theorem effect_of_execute (executed : machine.execute instruction = (result, after)) :
    machine.Effect instruction result after := by
  have effect := machine.hasEffect_execute instruction
  rw [HasEffect, executed] at effect
  exact effect

/-! ## What an instruction leaves alone -/

/-- An instruction has no hold over the program counter, the configuration, the profile and the
status. -/
theorem Effect.frame (effect : machine.Effect instruction result after) :
    after.pc = machine.pc ∧ after.config = machine.config ∧ after.profile = machine.profile ∧
      after.status = machine.status := by
  cases effect <;> exact ⟨rfl, rfl, rfl, rfl⟩

/-- Only the two operations that are for it exchange anything with a device. -/
theorem Effect.channels (effect : machine.Effect instruction result after)
    (no_output : instruction.opcode ≠ .output) (no_input : instruction.opcode ≠ .input) :
    after.channels = machine.channels := by
  cases effect with
  | delivered | undelivered => exact absurd rfl no_output
  | received | unreceived => exact absurd rfl no_input
  | computed | halted | wrote | mapped | unmapped | jumped | installed | refused => rfl

/-- Nothing is taken from the input but by the operation that reads. -/
theorem Effect.input (effect : machine.Effect instruction result after)
    (no_input : instruction.opcode ≠ .input) :
    after.channels.input = machine.channels.input := by
  cases effect with
  | received | unreceived => exact absurd rfl no_input
  | @delivered _ byte _ _ delivered | @undelivered _ byte _ _ _ delivered =>
      have kept := machine.channels.deliver_input byte
      rwa [delivered] at kept
  | computed | halted | wrote | mapped | unmapped | jumped | installed | refused => rfl

/-! ## What an instruction does not see -/

/-- An instruction that computes something within the registers sees nothing else. -/
theorem execute_computed {change : Machine → Machine} (machine : Machine)
    (registers : (change machine).registers = machine.registers)
    (put : ∀ target word, (change machine).put target word = change (machine.put target word))
    {instruction : Instruction}
    (inner : instruction.opcode ∉ [.load, .store, .map, .unmap, .output, .input, .loadProgram]) :
    (change machine).execute instruction =
      ((machine.execute instruction).1, change (machine.execute instruction).2) := by
  cases instruction with
  | load | store | map | unmap | output | input | loadProgram => simp [Instr.opcode] at inner
  | conditionalMove | divide =>
      simp only [Machine.execute, registers]
      split
      · rfl
      · rw [put]
  | add | multiply | nand | halt | loadImmediate => simp only [Machine.execute, registers, put]

/-- A change of the machine that an instruction cannot see, unless it asks the store for
something. -/
structure Unseen (change : Machine → Machine) : Prop where
  registers : ∀ machine, (change machine).registers = machine.registers
  channels : ∀ machine, (change machine).channels = machine.channels
  outputPolicy : ∀ machine,
    (change machine).config.outputPolicy = machine.config.outputPolicy
  put : ∀ machine target word, (change machine).put target word = change (machine.put target word)
  exchange : ∀ machine channels,
    { change machine with channels } = change { machine with channels }

namespace Unseen

variable {change : Machine → Machine} (unseen : Unseen change) (machine : Machine)
include unseen

theorem output (word : Word) :
    (change machine).output word =
      ((machine.output word).1, change (machine.output word).2) := by
  simp only [Machine.output, takeChannels, unseen.outputPolicy, unseen.channels]
  cases machine.config.outputPolicy.byte? word with
  | none => rfl
  | some byte =>
      simp only
      generalize machine.channels.deliver byte = answer
      obtain ⟨delivered, channels⟩ := answer
      cases delivered with
      | ok done => exact congrArg _ (unseen.exchange machine channels)
      | error error => exact congrArg _ (unseen.exchange machine channels)

theorem input (out : Register) :
    (change machine).input out = ((machine.input out).1, change (machine.input out).2) := by
  simp only [Machine.input, takeChannels, unseen.channels]
  generalize machine.channels.receive = answer
  obtain ⟨received, channels⟩ := answer
  cases received with
  | ok byte? =>
      simp only [unseen.exchange, unseen.put]
  | error error => exact congrArg _ (unseen.exchange machine channels)

theorem execute {instruction : Instruction}
    (storeless : instruction.opcode ∉ [.load, .store, .map, .unmap, .loadProgram]) :
    (change machine).execute instruction =
      ((machine.execute instruction).1, change (machine.execute instruction).2) := by
  cases instruction with
  | load | store | map | unmap | loadProgram => simp [Instr.opcode] at storeless
  | output => simp only [Machine.execute, unseen.registers, unseen.output]
  | input => simp only [Machine.execute, unseen.input]
  | conditionalMove | add | multiply | divide | nand | halt | loadImmediate =>
      exact execute_computed machine (unseen.registers machine) (unseen.put machine)
        (by simp [Instr.opcode])

end Unseen

/-- An instruction that asks the store for nothing leaves it alone, whatever comes of it. -/
theorem execute_store (machine : Machine) {instruction : Instruction}
    (storeless : instruction.opcode ∉ [.load, .store, .map, .unmap, .loadProgram]) :
    (machine.execute instruction).2.store = machine.store := by
  have unseen : Unseen fun other => { other with store := machine.store } :=
    ⟨fun _ => rfl, fun _ => rfl, fun _ => rfl, fun _ _ _ => rfl, fun _ _ => rfl⟩
  have same := unseen.execute machine storeless
  exact congrArg (fun outcome => outcome.2.store) same

/-- A change of the machine that an instruction cannot see, unless it exchanges something with a
device. -/
structure UnseenOffline (change : Machine → Machine) : Prop where
  registers : ∀ machine, (change machine).registers = machine.registers
  store : ∀ machine, (change machine).store = machine.store
  memory : ∀ machine, (change machine).hasMemory = machine.hasMemory
  put : ∀ machine target word, (change machine).put target word = change (machine.put target word)
  note : ∀ machine event, (change machine).note event = change (machine.note event)
  keep : ∀ machine store, { change machine with store } = change { machine with store }

namespace UnseenOffline

variable {change : Machine → Machine} (unseen : UnseenOffline change) (machine : Machine)
include unseen

theorem load (out : Register) (handle : Handle) (offset : Word) :
    (change machine).load out handle offset =
      ((machine.load out handle offset).1, change (machine.load out handle offset).2) := by
  simp only [Machine.load, unseen.store]
  cases machine.store.read handle offset with
  | ok word => simp only [unseen.put]
  | error fault => rfl

theorem resume (written : Except Fault Store) :
    (change machine).resume written =
      ((machine.resume written).1, change (machine.resume written).2) := by
  cases written with
  | ok store => simp only [Machine.resume, unseen.keep]
  | error fault => rfl

theorem map (out : Register) (length : Nat) :
    (change machine).map out length =
      ((machine.map out length).1, change (machine.map out length).2) := by
  simp only [Machine.map, takeStore, unseen.store, unseen.memory, unseen.keep]
  cases machine.store.allocate length machine.hasMemory with
  | ok answer => simp only [unseen.note, unseen.put]
  | error fault => rfl

theorem unmap (handle : Handle) :
    (change machine).unmap handle =
      ((machine.unmap handle).1, change (machine.unmap handle).2) := by
  simp only [Machine.unmap, takeStore, unseen.store, unseen.keep]
  cases machine.store.free handle with
  | ok store => simp only [unseen.note]
  | error fault => rfl

theorem jump (handle : Handle) (target : Word) :
    (change machine).jump handle target =
      ((machine.jump handle target).1, change (machine.jump handle target).2) := by
  simp only [Machine.jump, takeStore, unseen.store, unseen.keep]
  by_cases itself : handle = .program
  · simp only [if_pos itself]
  · simp only [if_neg itself]
    cases machine.store.install handle with
    | ok store => simp only [unseen.note]
    | error fault => rfl

theorem execute {instruction : Instruction} (offline : instruction.opcode ∉ [.output, .input]) :
    (change machine).execute instruction =
      ((machine.execute instruction).1, change (machine.execute instruction).2) := by
  cases instruction with
  | output | input => simp [Instr.opcode] at offline
  | load => simp only [Machine.execute, unseen.registers, unseen.load]
  | store seg offset val =>
      have taken : (change machine).takeStore.2 = change machine.takeStore.2 :=
        unseen.keep machine ∅
      show (change machine).takeStore.2.resume
        ((change machine).store.write ((change machine).handle seg) ((change machine).word offset)
          ((change machine).word val)) = _
      rw [taken, unseen.resume, unseen.store, handle, word, word, unseen.registers]
      rfl
  | map => simp only [Machine.execute, unseen.registers, unseen.map]
  | unmap => simp only [Machine.execute, unseen.registers, unseen.unmap]
  | loadProgram => simp only [Machine.execute, unseen.registers, unseen.jump]
  | conditionalMove | add | multiply | divide | nand | halt | loadImmediate =>
      exact execute_computed machine (unseen.registers machine) (unseen.put machine)
        (by simp [Instr.opcode])

end UnseenOffline

end Machine

end UniversalMachine
