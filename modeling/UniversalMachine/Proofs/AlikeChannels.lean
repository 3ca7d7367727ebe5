import UniversalMachine.Proofs.SideBySide

/-!
# Channels that answer alike

A machine sees of its channels what they answer. If two channels give the same answers, and go on to
do so whatever they are asked, then two machines that differ in their channels alone do the same,
step by step and to the end of the run.
-/

namespace UniversalMachine

/-- A relation between channels that answer alike, and whose successors are related again. -/
structure Channels.Bisimulation (R : Channels → Channels → Prop) : Prop where
  deliver : ∀ {left right}, R left right → ∀ byte,
    (right.deliver byte).1 = (left.deliver byte).1 ∧
      R (left.deliver byte).2 (right.deliver byte).2
  receive : ∀ {left right}, R left right →
    right.receive.1 = left.receive.1 ∧ R left.receive.2 right.receive.2
  flush : ∀ {left right}, R left right →
    right.flush.1 = left.flush.1 ∧ R left.flush.2 right.flush.2

/-- A property of channels that every exchange keeps, whatever is answered. -/
structure Channels.Invariant (P : Channels → Prop) : Prop where
  deliver : ∀ {channels}, P channels → ∀ byte, P (channels.deliver byte).2
  receive : ∀ {channels}, P channels → P channels.receive.2
  flush : ∀ {channels}, P channels → P channels.flush.2

/-- Channels with the property answer like themselves. -/
theorem Channels.Invariant.bisimulation {P : Channels → Prop} (invariant : Channels.Invariant P) :
    Channels.Bisimulation fun left right => right = left ∧ P left where
  deliver := by
    rintro channels _ ⟨rfl, holds⟩ byte
    exact ⟨rfl, rfl, invariant.deliver holds byte⟩
  receive := by
    rintro channels _ ⟨rfl, holds⟩
    exact ⟨rfl, rfl, invariant.receive holds⟩
  flush := by
    rintro channels _ ⟨rfl, holds⟩
    exact ⟨rfl, rfl, invariant.flush holds⟩

namespace Machine

/-- The machine with other channels. -/
def withChannels (machine : Machine) (channels : Channels) : Machine :=
  { machine with channels }

/-- Machines with related channels that are the same in everything else. -/
def UpToChannels (R : Channels → Channels → Prop) (machine other : Machine) : Prop :=
  other = machine.withChannels other.channels ∧ R machine.channels other.channels

variable {R : Channels → Channels → Prop} {machine other : Machine} {channels : Channels}

theorem upToChannels_withChannels (alike : R machine.channels channels) :
    UpToChannels R machine (machine.withChannels channels) :=
  ⟨rfl, alike⟩

/-- Machines up to channels can be taken to be one machine with two channels. -/
theorem UpToChannels.cases (related : UpToChannels R machine other) :
    ∃ channels, other = machine.withChannels channels ∧ R machine.channels channels :=
  ⟨other.channels, related⟩

theorem coupling_upToChannels (R : Channels → Channels → Prop) : Coupling (UpToChannels R) where
  pc related := by
    obtain ⟨channels, rfl, -⟩ := related.cases
    rfl
  status related := by
    obtain ⟨channels, rfl, -⟩ := related.cases
    rfl
  move related pc := by
    obtain ⟨channels, rfl, alike⟩ := related.cases
    exact ⟨rfl, alike⟩
  stop related status := by
    obtain ⟨channels, rfl, alike⟩ := related.cases
    exact ⟨rfl, alike⟩

theorem unseenOffline_withChannels (channels : Channels) :
    UnseenOffline fun machine => machine.withChannels channels where
  registers _ := rfl
  store _ := rfl
  memory _ := rfl
  put _ _ _ := rfl
  note _ _ := rfl
  keep _ _ := rfl

/-! ## One step -/

/-- A byte is written alike if the channels take it alike. -/
theorem output_together (alike : R machine.channels channels)
    (deliver : ∀ byte, (channels.deliver byte).1 = (machine.channels.deliver byte).1 ∧
      R (machine.channels.deliver byte).2 (channels.deliver byte).2) (value : Word) :
    Together (UpToChannels R) (machine.output value)
      ((machine.withChannels channels).output value) := by
  have policy : (machine.withChannels channels).config.outputPolicy.byte? value =
      machine.config.outputPolicy.byte? value := rfl
  cases allowed : machine.config.outputPolicy.byte? value with
  | none =>
      rw [output_of_none allowed, output_of_none (policy.trans allowed)]
      exact ⟨rfl, rfl, alike⟩
  | some byte =>
      obtain ⟨answer, kept⟩ := deliver byte
      have delivered : (machine.withChannels channels).channels.deliver byte =
          ((machine.channels.deliver byte).1, (channels.deliver byte).2) := Prod.ext answer rfl
      rw [output_of_some allowed rfl, output_of_some (policy.trans allowed) delivered]
      exact ⟨rfl, rfl, kept⟩

/-- A byte is read alike if the channels give it alike. -/
theorem input_together (answer : channels.receive.1 = machine.channels.receive.1)
    (kept : R machine.channels.receive.2 channels.receive.2) (out : Register) :
    Together (UpToChannels R) (machine.input out)
      ((machine.withChannels channels).input out) := by
  cases received : machine.channels.receive.1 with
  | ok byte? =>
      have received_too : (machine.withChannels channels).channels.receive =
          (.ok byte?, channels.receive.2) := Prod.ext (answer.trans received) rfl
      rw [input_of_ok (Prod.ext received rfl), input_of_ok received_too]
      exact ⟨rfl, rfl, kept⟩
  | error error =>
      have failed_too : (machine.withChannels channels).channels.receive =
          (.error error, channels.receive.2) := Prod.ext (answer.trans received) rfl
      rw [input_of_error (Prod.ext received rfl), input_of_error failed_too]
      exact ⟨rfl, rfl, kept⟩

/-- An instruction that reads nothing is executed alike if the channels take bytes alike. -/
theorem execute_together (alike : R machine.channels channels)
    (deliver : ∀ byte, (channels.deliver byte).1 = (machine.channels.deliver byte).1 ∧
      R (machine.channels.deliver byte).2 (channels.deliver byte).2)
    {instruction : Instruction} (no_input : instruction.opcode ≠ .input) :
    Together (UpToChannels R) (machine.execute instruction)
      ((machine.withChannels channels).execute instruction) := by
  cases instruction with
  | input => exact absurd rfl no_input
  | output val => exact output_together alike deliver (machine.word val)
  | conditionalMove | load | store | add | multiply | divide | nand | halt | map | unmap
  | loadProgram | loadImmediate =>
      rw [(unseenOffline_withChannels channels).execute machine (by simp [Instr.opcode])]
      refine ⟨rfl, upToChannels_withChannels ?_⟩
      rwa [(hasEffect_execute machine _).channels (by simp [Instr.opcode]) (by simp [Instr.opcode])]

section Bisimulation

variable (bisimulation : Channels.Bisimulation R)
include bisimulation

theorem step_upToChannels (related : UpToChannels R machine other) :
    Together (UpToChannels R) machine.step other.step := by
  obtain ⟨channels, rfl, alike⟩ := related.cases
  refine (coupling_upToChannels R).step related (fun _ => rfl) fun _ instruction _ => ?_
  have entered : R (machine.enter instruction).channels channels := alike
  cases instruction with
  | input out =>
      obtain ⟨answer, kept⟩ := bisimulation.receive entered
      exact input_together answer kept out
  | conditionalMove | load | store | add | multiply | divide | nand | halt | map | unmap | output
  | loadProgram | loadImmediate =>
      exact execute_together entered (bisimulation.deliver entered) (by simp [Instr.opcode])

theorem finish_upToChannels (stopped : Except Fault Unit) (related : UpToChannels R machine other) :
    Together (UpToChannels R) (machine.finish stopped) (other.finish stopped) := by
  obtain ⟨channels, rfl, alike⟩ := related.cases
  obtain ⟨answer, kept⟩ := bisimulation.flush alike
  have same : (machine.withChannels channels).channels.flush =
      (machine.channels.flush.1, channels.flush.2) := Prod.ext answer rfl
  simp only [finish, takeChannels, same]
  exact ⟨rfl, rfl, kept⟩

/-- Machines up to channels that answer alike do the same in every step. -/
theorem stepped_upToChannels (related : UpToChannels R machine other) (count : Nat) :
    other.answer count = machine.answer count ∧
      UpToChannels R (machine.stepped count) (other.stepped count) := by
  have together (count : Nat) := stepped_together related fun earlier (_ : earlier < count) _ =>
    step_upToChannels bisimulation
  exact ⟨(together (count + 1)).1 count (Nat.lt_succ_self count), (together count).2⟩

/-- One of them ends its run when the other one does, and in the same way. -/
theorem run_upToChannels (related : UpToChannels R machine other) (budget : Nat) :
    Option.Rel (Together (UpToChannels R)) (machine.run budget) (other.run budget) :=
  run_together related (fun _ _ => step_upToChannels bisimulation)
    (fun stopped => finish_upToChannels bisimulation stopped) budget

end Bisimulation

/-- What every exchange keeps holds at the end of a run. -/
theorem run_invariant {P : Channels → Prop} (invariant : Channels.Invariant P)
    (holds : P machine.channels) {budget : Nat} {ending : Ending} {last : Machine}
    (ended : machine.run budget = some (ending, last)) : P last.channels := by
  have related : UpToChannels (fun left right => right = left ∧ P left) machine machine :=
    ⟨rfl, rfl, holds⟩
  have runs := run_upToChannels invariant.bisimulation related budget
  rw [ended] at runs
  cases runs with
  | some both => exact both.2.2.2

end Machine

end UniversalMachine
