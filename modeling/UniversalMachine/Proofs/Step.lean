import UniversalMachine.Proofs.Effect
import Mathlib.Tactic.ByContra

/-!
# One step and many

A step of a running machine goes one of three ways: nothing is executed, an instruction is
executed, or an instruction fails. An instruction changes registers, store, channels and log,
and the step moves the program counter and counts. Stepping on and running to the end are
then the same as long as every step leaves the machine running.
-/

namespace UniversalMachine

namespace Machine

/-- What a step makes of an instruction that did not fail. -/
def settle (machine : Machine) : Next → Except Fault Status × Machine
  | .advance => (.ok .running, { machine with pc := machine.pc + 1 })
  | .jump target => (.ok .running, { machine with pc := target })
  | .halt => (.ok .halted, machine.stop .halted)

variable {machine after : Machine}

/-- The program counter, the status and the store are all that is left to settle. -/
theorem settle_frame (machine : Machine) (next : Next) :
    (machine.settle next).2.registers = machine.registers ∧
      (machine.settle next).2.channels = machine.channels ∧
      (machine.settle next).2.config = machine.config ∧
      (machine.settle next).2.profile = machine.profile := by
  cases next <;> exact ⟨rfl, rfl, rfl, rfl⟩

theorem settle_status (machine : Machine) (next : Next) (running : machine.status = .running) :
    (machine.settle next).1 = .ok (machine.settle next).2.status := by
  cases next with
  | halt => rfl
  | advance | jump target => exact congrArg Except.ok running.symm

theorem step_of_stopped (stopped : machine.status ≠ .running) :
    machine.step = (.ok machine.status, machine) := by
  rw [step, if_pos stopped]

theorem step_of_refused {fault : Fault} (running : machine.status = .running)
    (refused : machine.upcoming = .error fault) :
    machine.step = (.error fault, machine.stop .failed) := by
  rw [step, if_neg (not_not_intro running), refused]

theorem step_of_executed {instruction : Instruction} {next : Next}
    (running : machine.status = .running) (upcoming : machine.upcoming = .ok instruction)
    (executed : (machine.enter instruction).execute instruction = (.ok next, after)) :
    machine.step = after.settle next := by
  rw [step, if_neg (not_not_intro running), upcoming]
  simp only [executed]
  cases next <;> rfl

theorem step_of_failed {instruction : Instruction} {fault : Fault}
    (running : machine.status = .running) (upcoming : machine.upcoming = .ok instruction)
    (failed : (machine.enter instruction).execute instruction = (.error fault, after)) :
    machine.step = (.error fault, after.stop .failed) := by
  rw [step, if_neg (not_not_intro running), upcoming]
  simp only [failed]

/-- The three ways in which a step of a running machine can go. -/
theorem step_cases (running : machine.status = .running) :
    (∃ fault, machine.upcoming = .error fault ∧
      machine.step = (.error fault, machine.stop .failed)) ∨
    (∃ instruction next after, machine.upcoming = .ok instruction ∧
      (machine.enter instruction).execute instruction = (.ok next, after) ∧
      machine.step = after.settle next) ∨
    (∃ instruction fault after, machine.upcoming = .ok instruction ∧
      (machine.enter instruction).execute instruction = (.error fault, after) ∧
      machine.step = (.error fault, after.stop .failed)) := by
  cases upcoming : machine.upcoming with
  | error fault => exact .inl ⟨fault, rfl, step_of_refused running upcoming⟩
  | ok instruction =>
      right
      cases executed : (machine.enter instruction).execute instruction with
      | mk result after =>
          cases result with
          | ok next =>
              exact .inl ⟨instruction, next, after, rfl, executed,
                step_of_executed running upcoming executed⟩
          | error fault =>
              exact .inr ⟨instruction, fault, after, rfl, executed,
                step_of_failed running upcoming executed⟩

/-- A step counts the instruction and leaves the channels as the instruction did, whatever comes of
it. -/
theorem step_of_upcoming {instruction : Instruction} (running : machine.status = .running)
    (upcoming : machine.upcoming = .ok instruction) :
    machine.step.2.channels =
        ((machine.enter instruction).execute instruction).2.channels ∧
      machine.step.2.profile = machine.profile.record instruction.opcode := by
  cases executed : (machine.enter instruction).execute instruction with
  | mk result after =>
      have profile := (effect_of_execute executed).frame.2.2.1
      cases result with
      | ok way =>
          obtain ⟨-, channels, -, kept⟩ := after.settle_frame way
          rw [step_of_executed running upcoming executed]
          exact ⟨channels, kept.trans profile⟩
      | error fault =>
          rw [step_of_failed running upcoming executed]
          exact ⟨rfl, profile⟩

/-- What a step makes of a machine that may write a byte. -/
theorem step_of_output {val : Register} {byte : UInt8} (running : machine.status = .running)
    (upcoming : machine.upcoming = .ok (.output val))
    (allowed : machine.config.outputPolicy.byte? (machine.word val) = some byte) :
    let written := machine.channels.deliver byte
    machine.step.2.channels = written.2 ∧
    (written.1 = .ok () → machine.step = (.ok .running,
      { machine.enter (.output val) with channels := written.2, pc := machine.pc + 1 })) ∧
    (∀ error, written.1 = .error error → machine.step.1 = .error (.channel error)) := by
  intro written
  have executed : (machine.enter (.output val)).execute (.output val) =
      ((written.1.mapError .channel).map fun _ => .advance,
        { machine.enter (.output val) with channels := written.2 }) :=
    output_of_some allowed rfl
  cases answer : written.1 with
  | ok done =>
      rw [answer] at executed
      rw [step_of_executed running upcoming executed]
      exact ⟨rfl, fun _ => rfl, nofun⟩
  | error error =>
      rw [answer] at executed
      rw [step_of_failed running upcoming executed]
      refine ⟨rfl, nofun, ?_⟩
      rintro _ ⟨⟩
      rfl

/-- The limit leaves an instruction alone or keeps the machine from fetching it. -/
theorem fetch_of_upcoming {instruction : Instruction}
    (upcoming : machine.upcoming = .ok instruction) : machine.fetch = .ok instruction := by
  unfold Machine.upcoming at upcoming
  split at upcoming
  · exact upcoming
  · split at upcoming
    · cases upcoming
    · exact upcoming

/-- An instruction that is fetched stands in the program at the program counter. -/
theorem fetch_cases {instruction : Instruction} (fetched : machine.fetch = .ok instruction) :
    ∃ word, machine.store.read .program machine.pc = .ok word ∧
      Instr.decode word = .ok instruction := by
  unfold fetch at fetched
  cases program : machine.store.program with
  | error fault => simp [program] at fetched
  | ok words =>
      simp only [program] at fetched
      have found := Store.segment_eq_ok_iff.mp program
      cases cell : words[machine.pc.toNat]? with
      | none => simp [cell] at fetched
      | some word =>
          simp only [cell] at fetched
          exact ⟨word, Store.read_of_getElem? found cell, fetched⟩

/-- A step that succeeds executes an instruction. -/
theorem step_executed {status : Status} {next : Machine} (running : machine.status = .running)
    (stepped : machine.step = (.ok status, next)) :
    ∃ instruction way after, machine.upcoming = .ok instruction ∧
      (machine.enter instruction).execute instruction = (.ok way, after) ∧
      after.settle way = (.ok status, next) := by
  rcases step_cases running with ⟨fault, -, refused⟩ |
    ⟨instruction, way, after, upcoming, executed, settled⟩ |
    ⟨instruction, fault, after, -, -, failed⟩
  · simp [refused] at stepped
  · exact ⟨instruction, way, after, upcoming, executed, settled.symm.trans stepped⟩
  · simp [failed] at stepped

/-- The instruction that it executes is the word at the program counter. -/
theorem step_eq_ok {status : Status} {next : Machine} (running : machine.status = .running)
    (stepped : machine.step = (.ok status, next)) :
    ∃ word instruction way after, machine.store.read .program machine.pc = .ok word ∧
      Instr.decode word = .ok instruction ∧
      (machine.enter instruction).execute instruction = (.ok way, after) ∧
      after.settle way = (.ok status, next) := by
  obtain ⟨instruction, way, after, upcoming, executed, settled⟩ := step_executed running stepped
  obtain ⟨word, read, decoded⟩ := fetch_cases (fetch_of_upcoming upcoming)
  exact ⟨word, instruction, way, after, read, decoded, executed, settled⟩

/-- What a step that succeeds makes of the machine, whatever the instruction. -/
theorem settled_frame {instruction : Instruction} {way : Next} {status : Status} {next : Machine}
    (running : machine.status = .running)
    (executed : (machine.enter instruction).execute instruction = (.ok way, after))
    (settled : after.settle way = (.ok status, next)) :
    next.status = status ∧ next.config = machine.config ∧
      next.profile = machine.profile.record instruction.opcode ∧
      (instruction.opcode ≠ .output → instruction.opcode ≠ .input →
        next.channels = machine.channels) := by
  have effect := effect_of_execute executed
  obtain ⟨-, same_config, same_profile, same_status⟩ := effect.frame
  have answered := after.settle_status way (same_status.trans running)
  obtain ⟨-, channels, config, profile⟩ := after.settle_frame way
  rw [settled] at answered channels config profile
  refine ⟨(Except.ok.inj answered).symm, config.trans same_config, profile.trans same_profile, ?_⟩
  intro no_output no_input
  exact channels.trans (effect.channels no_output no_input)

/-- A step that leaves the machine running leaves it what the instruction made, but for the program
counter. -/
theorem settle_running {next : Machine} {way : Next}
    (settled : after.settle way = (.ok .running, next)) :
    next = { after with pc := next.pc } := by
  cases way with
  | advance | jump target =>
      cases settled
      rfl
  | halt => cases settled

/-! ## What a step answers -/

theorem settle_answer (machine : Machine) (next : Next) :
    (machine.settle next).1 = .ok .running ∨ (machine.settle next).1 = .ok .halted := by
  cases next with
  | advance | jump target => exact .inl rfl
  | halt => exact .inr rfl

/-- A step that returns no fault answers with the status it leaves the machine in. -/
theorem status_of_answer {status : Status} {next : Machine}
    (stepped : machine.step = (.ok status, next)) : next.status = status := by
  by_cases running : machine.status = .running
  · obtain ⟨instruction, way, after, -, executed, settled⟩ := step_executed running stepped
    exact (settled_frame running executed settled).1
  · rw [step_of_stopped running] at stepped
    cases stepped
    rfl

/-- Only a machine that runs can fail. It fails before anything is executed or in an
instruction. -/
theorem step_eq_error {fault : Fault} {next : Machine}
    (failed : machine.step = (.error fault, next)) :
    machine.status = .running ∧
      ((machine.upcoming = .error fault ∧ next = machine.stop .failed) ∨
        ∃ instruction after, machine.upcoming = .ok instruction ∧
          (machine.enter instruction).execute instruction = (.error fault, after) ∧
          next = after.stop .failed) := by
  by_cases running : machine.status = .running
  · refine ⟨running, ?_⟩
    rcases step_cases running with ⟨reason, refused, stopped⟩ |
      ⟨instruction, way, after, upcoming, executed, settled⟩ |
      ⟨instruction, reason, after, upcoming, executed, stopped⟩
    · rw [stopped] at failed
      cases failed
      exact .inl ⟨refused, rfl⟩
    · have answered := after.settle_answer way
      rw [← settled, failed] at answered
      rcases answered with answered | answered <;> cases answered
    · rw [stopped] at failed
      cases failed
      exact .inr ⟨instruction, after, upcoming, executed, rfl⟩
  · rw [step_of_stopped running] at failed
    cases failed

theorem status_of_fault {fault : Fault} {next : Machine}
    (failed : machine.step = (.error fault, next)) :
    machine.status = .running ∧ next.status = .failed := by
  obtain ⟨running, ⟨-, rfl⟩ | ⟨instruction, after, -, -, rfl⟩⟩ := step_eq_error failed
  · exact ⟨running, rfl⟩
  · exact ⟨running, rfl⟩

/-- A step that finds the machine failed is a step after the one that failed. -/
theorem failed_of_answer (answered : machine.step.1 = .ok .failed) : machine.status = .failed := by
  by_cases running : machine.status = .running
  · have stepped : machine.step = (.ok .failed, machine.step.2) := Prod.ext answered rfl
    obtain ⟨_, way, after, -, -, settled⟩ := step_executed running stepped
    have answers := after.settle_answer way
    rw [settled] at answers
    rcases answers with other | other <;> cases other
  · rw [step_of_stopped running] at answered
    exact Except.ok.inj answered

theorem answer_of_running (running : machine.step.2.status = .running) :
    machine.step.1 = .ok .running := by
  cases answered : machine.step.1 with
  | ok status => rw [← status_of_answer (Prod.ext answered rfl), running]
  | error fault =>
      have failed := (status_of_fault (Prod.ext answered rfl)).2
      rw [running] at failed
      cases failed

/-! ## Many steps -/

/-- A step that leaves the machine running has counted one instruction and kept the
configuration. -/
theorem step_running {next : Machine} (stepped : machine.step = (.ok .running, next)) :
    machine.status = .running ∧ next.status = .running ∧ next.config = machine.config ∧
      next.profile.steps = machine.profile.steps + 1 := by
  have running : machine.status = .running := by
    by_contra stopped
    rw [step_of_stopped stopped, Prod.mk.injEq, Except.ok.injEq] at stepped
    exact stopped stepped.1
  obtain ⟨instruction, way, after, -, executed, settled⟩ := step_executed running stepped
  obtain ⟨status, config, profile, -⟩ := settled_frame running executed settled
  refine ⟨running, status, config, ?_⟩
  rw [profile, Profile.steps_record]

/-- The machine after a number of steps. -/
def stepped (machine : Machine) : Nat → Machine
  | 0 => machine
  | count + 1 => machine.step.2.stepped count

/-- What the machine answers to a step after a number of steps. -/
def answer (machine : Machine) (count : Nat) : Except Fault Status :=
  (machine.stepped count).step.1

/-- The first steps all leave the machine running. -/
def RunsFor (machine : Machine) (count : Nat) : Prop :=
  ∀ earlier < count, machine.answer earlier = .ok .running

theorem stepped_succ (machine : Machine) (count : Nat) :
    machine.stepped (count + 1) = (machine.stepped count).step.2 := by
  induction count generalizing machine with
  | zero => rfl
  | succ count ih => exact ih machine.step.2

theorem answer_succ (machine : Machine) (count : Nat) :
    machine.answer (count + 1) = machine.step.2.answer count :=
  rfl

theorem stepped_add (machine : Machine) (count more : Nat) :
    machine.stepped (count + more) = (machine.stepped count).stepped more := by
  induction more with
  | zero => rfl
  | succ more ih => rw [← Nat.add_assoc, stepped_succ, ih, stepped_succ]

/-- Steps do nothing to a machine that has stopped. -/
theorem stepped_of_stopped (stopped : machine.status ≠ .running) (count : Nat) :
    machine.stepped count = machine := by
  induction count with
  | zero => rfl
  | succ count ih => rw [stepped_succ, ih, step_of_stopped stopped]

theorem RunsFor.mono {count more : Nat} (runs : machine.RunsFor more) (le : count ≤ more) :
    machine.RunsFor count :=
  fun earlier before => runs earlier (Nat.lt_of_lt_of_le before le)

theorem RunsFor.succ {count : Nat} (runs : machine.RunsFor count)
    (answer : machine.answer count = .ok .running) : machine.RunsFor (count + 1) := by
  intro earlier before
  rcases Nat.lt_succ_iff_lt_or_eq.mp before with before | rfl
  · exact runs earlier before
  · exact answer

theorem RunsFor.step {count : Nat} (runs : machine.RunsFor (count + 1)) :
    (machine.stepped count).step = (.ok .running, machine.stepped (count + 1)) := by
  rw [stepped_succ]
  exact Prod.ext (runs count (Nat.lt_succ_self count)) rfl

/-- A machine that runs after some steps was left running by each of them. -/
theorem runsFor_of_running {count : Nat} (running : (machine.stepped count).status = .running) :
    machine.RunsFor count := by
  induction count with
  | zero => exact fun earlier before => absurd before (Nat.not_lt_zero earlier)
  | succ count ih =>
      rw [stepped_succ] at running
      have answered : machine.answer count = .ok .running := answer_of_running running
      have before := step_running (Prod.ext answered rfl)
      exact (ih before.1).succ answered

/-- As long as the machine runs, each step counts one instruction. -/
theorem RunsFor.steps {count : Nat} (runs : machine.RunsFor count) :
    (machine.stepped count).status = machine.status ∧
      (machine.stepped count).config = machine.config ∧
      (machine.stepped count).profile.steps = machine.profile.steps + count := by
  induction count with
  | zero => exact ⟨rfl, rfl, (Nat.add_zero machine.profile.steps).symm⟩
  | succ count ih =>
      obtain ⟨status, config, steps⟩ := ih (runs.mono (Nat.le_succ count))
      obtain ⟨running, still, kept, counted⟩ := step_running runs.step
      refine ⟨still.trans (running.symm.trans status), kept.trans config, ?_⟩
      rw [counted, steps, Nat.add_assoc]

theorem run_of_running {next : Machine} (stepped : machine.step = (.ok .running, next))
    (budget : Nat) : machine.run (budget + 1) = next.run budget := by
  rw [run, stepped]

/-- A run that is not over after some steps goes on from where these lead. -/
theorem run_of_runsFor {count : Nat} (runs : machine.RunsFor count) (budget : Nat) :
    machine.run (count + budget) = (machine.stepped count).run budget := by
  induction count generalizing machine with
  | zero => exact congrArg machine.run (Nat.zero_add budget)
  | succ count ih =>
      have first : machine.step = (.ok .running, machine.stepped 1) :=
        (runs.mono (Nat.le_add_left 1 count)).step
      have rest : machine.step.2.RunsFor count := by
        intro earlier before
        rw [← answer_succ]
        exact runs (earlier + 1) (Nat.succ_lt_succ before)
      calc
        machine.run (count + 1 + budget) = machine.run (count + budget + 1) := by
          rw [Nat.add_right_comm]
        _ = (machine.stepped 1).run (count + budget) := run_of_running first (count + budget)
        _ = (machine.stepped (count + 1)).run budget := ih rest

/-- A step that does not leave the machine running ends the run. -/
theorem run_of_stop (stops : machine.step.1 ≠ .ok .running) (budget : Nat) :
    machine.run (budget + 1) = some (machine.step.2.finish (machine.step.1.map fun _ => ())) := by
  rw [run]
  generalize machine.step = result at stops
  obtain ⟨answer, next⟩ := result
  cases answer with
  | error fault => rfl
  | ok status =>
      cases status with
      | running => exact absurd rfl stops
      | halted | failed => rfl

/-- The number, counted from one, of the first step that does not leave the machine running. -/
def FirstStop (machine : Machine) (number : Nat) : Prop :=
  ∃ count, number = count + 1 ∧ machine.RunsFor count ∧ machine.answer count ≠ .ok .running

theorem runsFor_or_firstStop (machine : Machine) (limit : Nat) :
    machine.RunsFor limit ∨ ∃ number, machine.FirstStop number ∧ number ≤ limit := by
  induction limit with
  | zero => exact .inl fun earlier before => absurd before (Nat.not_lt_zero earlier)
  | succ limit ih =>
      rcases ih with runs | ⟨number, first, le⟩
      · by_cases running : machine.answer limit = .ok .running
        · exact .inl (runs.succ running)
        · exact .inr ⟨limit + 1, ⟨limit, rfl, runs, running⟩, Nat.le_refl _⟩
      · exact .inr ⟨number, first, Nat.le_succ_of_le le⟩

/-- A run ends with its first stop, whatever the budget beyond it. -/
theorem run_of_firstStop {count : Nat} (runs : machine.RunsFor count)
    (stops : machine.answer count ≠ .ok .running) {budget : Nat} (enough : count < budget) :
    machine.run budget =
      some ((machine.stepped count).step.2.finish ((machine.answer count).map fun _ => ())) := by
  obtain ⟨rest, rfl⟩ := Nat.exists_eq_add_of_lt enough
  rw [Nat.add_assoc, run_of_runsFor runs]
  exact run_of_stop stops rest

/-- A run that ends does so with the first step that does not leave the machine running. -/
theorem run_cases {budget : Nat} {outcome : Ending × Machine}
    (ended : machine.run budget = some outcome) :
    ∃ count, machine.RunsFor count ∧ machine.answer count ≠ .ok .running ∧
      outcome =
        (machine.stepped count).step.2.finish ((machine.answer count).map fun _ => ()) := by
  rcases machine.runsFor_or_firstStop budget with runs | ⟨number, ⟨count, rfl, runs, stops⟩, le⟩
  · have out_of_budget := run_of_runsFor runs 0
    rw [Nat.add_zero, ended] at out_of_budget
    cases out_of_budget
  · refine ⟨count, runs, stops, ?_⟩
    rw [run_of_firstStop runs stops (Nat.lt_of_succ_le le)] at ended
    exact (Option.some.inj ended).symm

end Machine

end UniversalMachine
