import UniversalMachine.Proofs.Step

/-!
# What is executed

A step executes the instruction at the program counter, unless the machine has stopped or the step
is refused. Once a step executes nothing, no later one does. The profile counts what the steps have
executed, each instruction under its operation.
-/

namespace UniversalMachine

namespace Machine

variable {machine next : Machine} {instruction : Instruction}

/-! ## One step -/

/-- The instruction that the next step executes, if it executes one. -/
def executing? (machine : Machine) : Option Instruction :=
  if machine.status = .running then machine.upcoming.toOption else none

/-- That instruction, with the program counter at which it stands. -/
def execution? (machine : Machine) : Option (Word × Instruction) :=
  machine.executing?.map fun instruction => (machine.pc, instruction)

theorem executing?_eq_some_iff :
    machine.executing? = some instruction ↔
      machine.status = .running ∧ machine.upcoming = .ok instruction := by
  unfold executing?
  split
  · next running => cases machine.upcoming <;> simp [running, Except.toOption]
  · next stopped => simp [stopped]

theorem executing?_of_stopped (stopped : machine.status ≠ .running) :
    machine.executing? = none := by
  rw [executing?, if_neg stopped]

/-- A step that executes nothing leaves the machine as it is, or ends it and changes nothing
else. -/
theorem step_of_idle (idle : machine.executing? = none) :
    (machine.status ≠ .running ∧ machine.step.2 = machine) ∨
      machine.step.2 = machine.stop .failed := by
  by_cases running : machine.status = .running
  · cases upcoming : machine.upcoming with
    | error fault => exact .inr (by rw [step_of_refused running upcoming])
    | ok instruction =>
        rw [executing?_eq_some_iff.mpr ⟨running, upcoming⟩] at idle
        cases idle
  · exact .inl ⟨running, by rw [step_of_stopped running]⟩

/-- After such a step the machine does not run. -/
theorem stopped_of_idle (idle : machine.executing? = none) :
    machine.step.2.status ≠ .running := by
  rcases step_of_idle idle with ⟨stopped, same⟩ | failed
  · rwa [same]
  · rw [failed]
    nofun

/-- A step that leaves the machine running executes an instruction. -/
theorem executing_of_running (stepped : machine.step = (.ok .running, next)) :
    ∃ instruction, machine.executing? = some instruction := by
  have running := (step_running stepped).1
  obtain ⟨instruction, -, -, upcoming, -⟩ := step_executed running stepped
  exact ⟨instruction, executing?_eq_some_iff.mpr ⟨running, upcoming⟩⟩

/-- A step counts the instruction that it executes and nothing else. -/
theorem step_profile (machine : Machine) :
    machine.step.2.profile =
      machine.executing?.elim machine.profile fun instruction =>
        machine.profile.record instruction.opcode := by
  cases executing : machine.executing? with
  | none =>
      rcases step_of_idle executing with ⟨-, same⟩ | failed
      · rw [same]
        rfl
      · rw [failed]
        rfl
  | some instruction =>
      obtain ⟨running, upcoming⟩ := executing?_eq_some_iff.mp executing
      exact (step_of_upcoming running upcoming).2

theorem count_step (machine : Machine) (op : Opcode) :
    machine.step.2.profile.count op =
      machine.profile.count op +
        if machine.executing?.map Instr.opcode = some op then 1 else 0 := by
  rw [step_profile]
  cases machine.executing? with
  | none => rfl
  | some instruction =>
      rw [Option.elim_some, Profile.count_record]
      by_cases same : op = instruction.opcode
      · simp [same]
      · simp [same, Ne.symm same]

theorem count_of_executing (executing : machine.executing? = some instruction) (op : Opcode) :
    machine.step.2.profile.count op =
      machine.profile.count op + if instruction.opcode = op then 1 else 0 := by
  rw [count_step]
  simp only [executing, Option.map_some, Option.some_inj]

/-! ## Many steps -/

theorem stepped_one (machine : Machine) : machine.stepped 1 = machine.step.2 :=
  rfl

/-- The instructions that a number of steps execute, in order. -/
def executed (machine : Machine) (count : Nat) : List (Word × Instruction) :=
  (List.range count).filterMap fun earlier => (machine.stepped earlier).execution?

theorem executed_one (machine : Machine) : machine.executed 1 = machine.execution?.toList := by
  rw [executed, List.range_one, List.filterMap_cons, List.filterMap_nil]
  cases execution : machine.execution? <;> simp [stepped, execution]

theorem executed_add (machine : Machine) (count more : Nat) :
    machine.executed (count + more) =
      machine.executed count ++ (machine.stepped count).executed more := by
  rw [executed, List.range_add, List.filterMap_append, List.filterMap_map, executed, executed]
  congr 2
  funext later
  rw [Function.comp_apply, stepped_add]

theorem executed_succ (machine : Machine) (count : Nat) :
    machine.executed (count + 1) =
      machine.executed count ++ (machine.stepped count).execution?.toList := by
  rw [executed_add, executed_one]

theorem executed_of_runsFor {count : Nat} (runs : machine.RunsFor count) :
    (machine.executed count).length = count := by
  induction count with
  | zero => rfl
  | succ count ih =>
      obtain ⟨instruction, executing⟩ := executing_of_running runs.step
      rw [executed_succ, List.length_append, ih (runs.mono (Nat.le_succ count)), execution?,
        executing]
      rfl

/-- The instruction in each place is the one that the step of that number executes. -/
theorem getElem?_executed {count : Nat} (runs : machine.RunsFor count) {i : Nat} (le : i ≤ count) :
    (machine.executed (count + 1))[i]? = (machine.stepped i).execution? := by
  induction count with
  | zero =>
      obtain rfl := Nat.le_zero.mp le
      rw [executed_succ]
      cases (machine.stepped 0).execution? <;> rfl
  | succ count ih =>
      have all_executed := executed_of_runsFor runs
      rw [executed_succ]
      rcases Nat.lt_or_eq_of_le le with before | rfl
      · rw [List.getElem?_append_left (all_executed.symm ▸ before)]
        exact ih (runs.mono (Nat.le_succ count)) (Nat.le_of_lt_succ before)
      · rw [List.getElem?_append_right (Nat.le_of_eq all_executed), all_executed, Nat.sub_self]
        cases (machine.stepped (count + 1)).execution? <;> rfl

/-- No place of the list is empty, so that each tells an instruction and where it stood. -/
theorem getElem?_executed_of_lt {count : Nat} (runs : machine.RunsFor count) {i : Nat}
    (inside : i < (machine.executed (count + 1)).length) :
    ∃ instruction, (machine.stepped i).executing? = some instruction ∧
      (machine.executed (count + 1))[i]? = some ((machine.stepped i).pc, instruction) := by
  have le : i ≤ count := by
    have bound : (machine.executed (count + 1)).length ≤ (List.range (count + 1)).length :=
      List.length_filterMap_le _ _
    rw [List.length_range] at bound
    exact Nat.le_of_lt_succ (Nat.lt_of_lt_of_le inside bound)
  have there := getElem?_executed runs le
  obtain ⟨instruction, executing, same⟩ :=
    Option.map_eq_some_iff.mp (there.symm.trans (List.getElem?_eq_getElem inside))
  refine ⟨instruction, executing, ?_⟩
  rw [there, execution?, executing]
  rfl

/-- The number of steps in the profile grows by the number of instructions that were executed. -/
theorem steps_stepped (machine : Machine) (count : Nat) :
    (machine.stepped count).profile.steps =
      machine.profile.steps + (machine.executed count).length := by
  induction count with
  | zero => exact (Nat.add_zero machine.profile.steps).symm
  | succ count ih =>
      rw [stepped_succ, step_profile, executed_succ, List.length_append, execution?]
      cases (machine.stepped count).executing? with
      | none => exact ih
      | some instruction =>
          rw [Option.elim_some, Profile.steps_record, ih, Nat.add_assoc]
          rfl

theorem count_mono (machine : Machine) (op : Opcode) (count : Nat) :
    machine.profile.count op ≤ (machine.stepped count).profile.count op := by
  induction count with
  | zero => exact Nat.le_refl _
  | succ count ih =>
      rw [stepped_succ, count_step]
      exact Nat.le_add_right_of_le ih

end Machine

end UniversalMachine
