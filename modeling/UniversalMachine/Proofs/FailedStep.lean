import UniversalMachine.Proofs.FaultTable

/-!
# What a failed step leaves

A step that fails leaves the program counter and the registers as they were, passes no byte in
either direction, and releases every segment. It is counted if an instruction was executed, and
then under the operation of that instruction.
-/

namespace UniversalMachine

namespace Machine

variable {machine after : Machine} {fault : Fault}

/-- The registers hold what they held, and no byte has passed in either direction. -/
structure Intact (machine after : Machine) : Prop where
  registers : after.registers = machine.registers
  output : after.channels.output = machine.channels.output
  data : Delivery.data after.channels.input = Delivery.data machine.channels.input

/-- An instruction that fails may have taken the store apart, but nothing else. -/
theorem Effect.intact {instruction : Instruction}
    (effect : machine.Effect instruction (.error fault) after) : machine.Intact after := by
  cases effect with
  | refused => exact ⟨rfl, rfl, rfl⟩
  | undelivered allowed failed =>
      obtain ⟨output, input⟩ := Channels.deliver_failed failed
      exact ⟨rfl, output, congrArg Delivery.data input⟩
  | unreceived failed =>
      obtain ⟨output, data⟩ := Channels.receive_failed failed
      exact ⟨rfl, output, data⟩

/-- A step that fails leaves the program counter and the registers as they were, and the machine
failed and without any segment. No byte is added to the output and none is taken from the input.
The profile is as it was if nothing was executed; otherwise the operation of the word at the
program counter has been counted once more. -/
theorem step_failed (failed : machine.step = (.error fault, after)) :
    after.pc = machine.pc ∧ after.registers = machine.registers ∧ after.status = .failed ∧
    after.store = ∅ ∧ after.channels.output = machine.channels.output ∧
    Delivery.data after.channels.input = Delivery.data machine.channels.input ∧
    (machine.Refused fault → after.profile = machine.profile) ∧
    (¬ machine.Refused fault → ∃ word op,
      machine.store.read .program machine.pc = .ok word ∧ op.number = word.toNat / 2 ^ 28 ∧
      ∀ other, after.profile.count other =
        machine.profile.count other + if other = op then 1 else 0) := by
  rcases (step_eq_error failed).2 with ⟨upcoming, rfl⟩ |
    ⟨instruction, next, upcoming, executed, rfl⟩
  · have refused := upcoming_eq_error_iff.mp upcoming
    exact ⟨rfl, rfl, rfl, rfl, rfl, rfl, fun _ => rfl, fun executed => absurd refused executed⟩
  · have effect := effect_of_execute executed
    obtain ⟨pc, -, profile, -⟩ := effect.frame
    obtain ⟨registers, output, data⟩ := effect.intact
    obtain ⟨-, word, op, fetched, number, rfl⟩ := upcoming_eq_ok_iff.mp upcoming
    refine ⟨pc, registers, rfl, rfl, output, data, ?_, ?_⟩
    · intro refused
      rw [upcoming_eq_error_iff.mpr refused] at upcoming
      cases upcoming
    · intro _
      have counted : (next.stop .failed).profile = machine.profile.record op := by
        rw [← Instr.opcode_ofOpcode op word]
        exact profile
      refine ⟨word, op, fetched, number, ?_⟩
      intro other
      rw [counted, Profile.count_record]
      by_cases same : other = op <;> simp [same]

/-- A read that is interrupted and then fails, with data behind the failure. -/
theorem step_failed_reading :
    let machine : Machine :=
      { registers := Registers.zeroed.put 2 9
        store := ⟨#[some #[0xB0000002]], []⟩
        channels :=
          { input := [.interrupted, .failure "disk on fire", .chunk [7]]
            transcript := #[.byte 5] } }
    let fault : Fault := .channel (.device "disk on fire")
    let after := machine.step.2
    machine.step = (.error fault, after) ∧ ¬ machine.Refused fault ∧
    after.pc = machine.pc ∧ after.registers = machine.registers ∧ after.status = .failed ∧
    after.store = ∅ ∧ after.channels.output = machine.channels.output ∧
    Delivery.data after.channels.input = Delivery.data machine.channels.input ∧
    ∃ word op, machine.store.read .program machine.pc = .ok word ∧
      op.number = word.toNat / 2 ^ 28 ∧
      ∀ other, after.profile.count other =
        machine.profile.count other + if other = op then 1 else 0 := by
  intro machine fault after
  have failed : machine.step = (.error fault, after) := by decide +kernel
  have upcoming : machine.upcoming = .ok (.input 2) := by decide +kernel
  have executed : ¬ machine.Refused fault := by
    intro refused
    rw [upcoming_eq_error_iff.mpr refused] at upcoming
    cases upcoming
  obtain ⟨pc, registers, status, store, output, data, -, counted⟩ := step_failed failed
  exact ⟨failed, executed, pc, registers, status, store, output, data, counted executed⟩

end Machine

end UniversalMachine
