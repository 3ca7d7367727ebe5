import UniversalMachine.Proofs.Step

/-!
# Two machines side by side

Two machines may differ in a way that the instruction they execute does not see. A relation says how
they differ. If the instruction answers both alike and keeps the relation, so does the step, and
if every step does, so do the runs: they have the same answers and the same ending, and leave
machines that differ in the same way.
-/

namespace UniversalMachine

namespace Machine

variable {Rel : Machine → Machine → Prop} {machine other : Machine}

/-- What two machines answer is the same, and what they become is in the relation. -/
def Together {α : Type} (Rel : Machine → Machine → Prop) (left right : α × Machine) : Prop :=
  right.1 = left.1 ∧ Rel left.2 right.2

/-- Machines in the relation stand at the same instruction and can be moved and stopped
together. -/
structure Coupling (Rel : Machine → Machine → Prop) : Prop where
  pc : ∀ {machine other}, Rel machine other → other.pc = machine.pc
  status : ∀ {machine other}, Rel machine other → other.status = machine.status
  move : ∀ {machine other}, Rel machine other → ∀ pc, Rel { machine with pc } { other with pc }
  stop : ∀ {machine other}, Rel machine other → ∀ status,
    Rel (machine.stop status) (other.stop status)

theorem Coupling.settle (coupling : Coupling Rel) (related : Rel machine other) (next : Next) :
    Together Rel (machine.settle next) (other.settle next) := by
  cases next with
  | advance =>
      refine ⟨rfl, ?_⟩
      show Rel { machine with pc := machine.pc + 1 } { other with pc := other.pc + 1 }
      rw [coupling.pc related]
      exact coupling.move related (machine.pc + 1)
  | jump target => exact ⟨rfl, coupling.move related target⟩
  | halt => exact ⟨rfl, coupling.stop related .halted⟩

/-- What two machines make of the instruction they execute, the step makes of them. -/
theorem Coupling.step_of_upcoming (coupling : Coupling Rel) {instruction : Instruction}
    (running : machine.status = .running) (running_too : other.status = .running)
    (upcoming : machine.upcoming = .ok instruction)
    (upcoming_too : other.upcoming = .ok instruction)
    (execute : Together Rel ((machine.enter instruction).execute instruction)
      ((other.enter instruction).execute instruction)) :
    Together Rel machine.step other.step := by
  generalize executed : (machine.enter instruction).execute instruction = outcome,
    executed_too : (other.enter instruction).execute instruction = outcome_too at execute
  obtain ⟨answer, after⟩ := outcome
  obtain ⟨answer_too, after_too⟩ := outcome_too
  obtain ⟨rfl, kept⟩ := execute
  cases answer_too with
  | ok next =>
      rw [step_of_executed running upcoming executed,
        step_of_executed running_too upcoming_too executed_too]
      exact coupling.settle kept next
  | error fault =>
      rw [step_of_failed running upcoming executed,
        step_of_failed running_too upcoming_too executed_too]
      exact ⟨rfl, coupling.stop kept .failed⟩

/-- Two machines that execute the same instruction in the same way step together. -/
theorem Coupling.step (coupling : Coupling Rel) (related : Rel machine other)
    (upcoming : machine.status = .running → other.upcoming = machine.upcoming)
    (execute : machine.status = .running → ∀ instruction, machine.upcoming = .ok instruction →
      Together Rel ((machine.enter instruction).execute instruction)
        ((other.enter instruction).execute instruction)) :
    Together Rel machine.step other.step := by
  have status := coupling.status related
  by_cases running : machine.status = .running
  · have same := upcoming running
    have running_too := status.trans running
    cases fetched : machine.upcoming with
    | error fault =>
        rw [step_of_refused running fetched, step_of_refused running_too (same.trans fetched)]
        exact ⟨rfl, coupling.stop related .failed⟩
    | ok instruction =>
        exact coupling.step_of_upcoming running running_too fetched (same.trans fetched)
          (execute running instruction fetched)
  · have other_stopped : other.status ≠ .running := by rwa [status]
    rw [step_of_stopped running, step_of_stopped other_stopped, status]
    exact ⟨rfl, related⟩

/-- As long as the steps are taken together, the answers are the same and the relation is kept. -/
theorem stepped_together {count : Nat} (related : Rel machine other)
    (together : ∀ earlier < count, ∀ other, Rel (machine.stepped earlier) other →
      Together Rel (machine.stepped earlier).step other.step) :
    (∀ earlier < count, other.answer earlier = machine.answer earlier) ∧
      Rel (machine.stepped count) (other.stepped count) := by
  induction count with
  | zero => exact ⟨fun earlier before => absurd before (Nat.not_lt_zero earlier), related⟩
  | succ count ih =>
      obtain ⟨answers, kept⟩ := ih fun earlier before =>
        together earlier (Nat.lt_succ_of_lt before)
      obtain ⟨answer, kept⟩ := together count (Nat.lt_succ_self count) _ kept
      rw [stepped_succ, stepped_succ]
      refine ⟨?_, kept⟩
      intro earlier before
      rcases Nat.lt_succ_iff_lt_or_eq.mp before with before | rfl
      · exact answers earlier before
      · exact answer

/-- Machines that take every step together, and finish together, run together. -/
theorem run_together (related : Rel machine other)
    (together : ∀ earlier other, Rel (machine.stepped earlier) other →
      Together Rel (machine.stepped earlier).step other.step)
    (finish : ∀ stopped {machine other}, Rel machine other →
      Together Rel (machine.finish stopped) (other.finish stopped)) (budget : Nat) :
    Option.Rel (Together Rel) (machine.run budget) (other.run budget) := by
  have side_by_side (count : Nat) :=
    stepped_together related fun earlier (_ : earlier < count) => together earlier
  have answers (count : Nat) : other.answer count = machine.answer count :=
    (side_by_side (count + 1)).1 count (Nat.lt_succ_self count)
  rcases machine.runsFor_or_firstStop budget with runs | ⟨number, ⟨count, rfl, runs, stops⟩, le⟩
  · have other_runs : other.RunsFor budget :=
      fun earlier before => (answers earlier).trans (runs earlier before)
    have unfinished : machine.run budget = none := run_of_runsFor runs 0
    have other_unfinished : other.run budget = none := run_of_runsFor other_runs 0
    rw [unfinished, other_unfinished]
    exact .none
  · have other_runs : other.RunsFor count :=
      fun earlier before => (answers earlier).trans (runs earlier before)
    have enough := Nat.lt_of_succ_le le
    rw [run_of_firstStop runs stops enough,
      run_of_firstStop other_runs ((answers count).trans_ne stops) enough, answers count,
      ← stepped_succ, ← stepped_succ]
    exact .some (finish _ (side_by_side (count + 1)).2)

end Machine

end UniversalMachine
