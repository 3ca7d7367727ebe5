import UniversalMachine.Proofs.Step

/-!
# What an ending tells

A run reports every fault of its own steps. It does not see a failure that came before it: a
machine that has failed answers a step with its status, as a machine that has halted does, and
the run takes either answer for the end of the program.
-/

namespace UniversalMachine

theorem Ending.code_eq_zero_iff {ending : Ending} : ending.code = 0 ↔ ending = .halted := by
  cases ending <;> simp [code]

namespace Machine

/-! ## Failing before a run -/

/-- A machine that was running has failed by now if one of its steps returned a fault. -/
theorem failed_iff_fault {machine : Machine} (fresh : machine.status = .running) (count : Nat) :
    (machine.stepped count).status = .failed ↔
      ∃ earlier < count, ∃ fault, machine.answer earlier = .error fault := by
  -- A step that returns a fault leaves the machine failed, and no later step changes that.
  induction count with
  | zero => simp [stepped, fresh]
  | succ count ih =>
      rw [stepped_succ]
      cases answered : machine.answer count with
      | error fault =>
          have failed := (status_of_fault (Prod.ext answered rfl)).2
          exact ⟨fun _ => ⟨count, Nat.lt_succ_self count, fault, answered⟩, fun _ => failed⟩
      | ok status =>
          constructor
          · intro failed
            rw [status_of_answer (Prod.ext answered rfl)] at failed
            obtain ⟨earlier, before, fault, fails⟩ := ih.mp (failed_of_answer (failed ▸ answered))
            exact ⟨earlier, Nat.lt_succ_of_lt before, fault, fails⟩
          · rintro ⟨earlier, before, fault, fails⟩
            rcases Nat.lt_succ_iff_lt_or_eq.mp before with before | rfl
            · have failed := ih.mpr ⟨earlier, before, fault, fails⟩
              rw [step_of_stopped (by simp [failed])]
              exact failed
            · rw [answered] at fails
              cases fails

/-! ## Finishing -/

/-- If no fault stopped the machine, the last flush alone decides. -/
theorem finish_eq_halted_iff (machine : Machine) :
    (machine.finish (.ok ())).1 = .halted ↔ machine.channels.flush.1 = .ok () := by
  simp only [finish, takeChannels]
  cases machine.channels.flush.1 with
  | ok done => simp
  | error error => simp

theorem finish_of_flushed {machine : Machine} (flushed : machine.channels.flush.1 = .ok ()) :
    machine.finish (.ok ()) = (.halted, (machine.finish (.ok ())).2) :=
  Prod.ext ((finish_eq_halted_iff machine).mpr flushed) rfl

/-- The fault that stopped the machine is the ending, whatever becomes of the last flush. -/
theorem finish_of_fault (machine : Machine) (fault : Fault) :
    machine.finish (.error fault) = (.failed fault, (machine.finish (.error fault)).2) :=
  rfl

theorem finish_status (machine : Machine) (stopped : Except Fault Unit) :
    (machine.finish stopped).2.status = machine.status :=
  rfl

theorem finish_transcript (machine : Machine) (stopped : Except Fault Unit) :
    (machine.finish stopped).2.channels.transcript.toList =
      machine.channels.transcript.toList ++ [.flush] :=
  Array.toList_push

theorem finish_profile (machine : Machine) (stopped : Except Fault Unit) :
    (machine.finish stopped).2.profile = machine.profile :=
  rfl

/-- The last flush is no output. -/
theorem finish_output (machine : Machine) (stopped : Except Fault Unit) :
    (machine.finish stopped).2.channels.output = machine.channels.output := by
  rw [Channels.output, finish_transcript, List.filterMap_append, Channels.output]
  exact List.append_nil _

/-- A run leaves a machine that it has stepped until it stopped and then finished. -/
theorem run_status {machine last : Machine} {ending : Ending} {budget : Nat}
    (ended : machine.run budget = some (ending, last)) :
    ∃ count, machine.RunsFor count ∧ machine.answer count ≠ .ok .running ∧
      ending =
        ((machine.stepped (count + 1)).finish ((machine.answer count).map fun _ => ())).1 ∧
      last.status = (machine.stepped (count + 1)).status := by
  obtain ⟨count, runs, stops, outcome⟩ := run_cases ended
  rw [← stepped_succ] at outcome
  refine ⟨count, runs, stops, congrArg Prod.fst outcome, ?_⟩
  calc
    last.status = (Prod.snd (ending, last)).status := rfl
    _ = ((machine.stepped (count + 1)).finish ((machine.answer count).map fun _ => ())).2.status :=
      by rw [outcome]
    _ = (machine.stepped (count + 1)).status := finish_status _ _

/-- A machine that has not failed either ends the run with the fault of the step that fails, or
halts. -/
theorem run_of_not_failed {machine last : Machine} {ending : Ending} {budget : Nat}
    (sound : machine.status ≠ .failed) (ended : machine.run budget = some (ending, last)) :
    (∃ count fault, machine.answer count = .error fault ∧ ending = .failed fault) ∨
      last.status = .halted := by
  obtain ⟨count, runs, stops, reported, status⟩ := run_status ended
  rw [stepped_succ] at status
  cases answered : machine.answer count with
  | error fault =>
      rw [answered] at reported
      exact .inl ⟨count, fault, answered, reported⟩
  | ok found =>
      rw [status_of_answer (Prod.ext answered rfl)] at status
      cases found with
      | running => exact absurd answered stops
      | halted => exact .inr status
      | failed =>
          -- The steps of the run left the status alone, so the machine had failed before them.
          apply absurd _ sound
          rw [← runs.steps.1]
          exact failed_of_answer answered

/-- A machine that has failed ends a run at once, and with no fault but that of the last
flush. -/
theorem run_of_failed {machine last : Machine} {ending : Ending} {budget : Nat}
    (failed : machine.status = .failed) (ended : machine.run budget = some (ending, last)) :
    last.status = .failed ∧ (ending = .halted ↔ machine.channels.flush.1 = .ok ()) := by
  have stopped : machine.status ≠ .running := by simp [failed]
  obtain ⟨count, -, -, reported, status⟩ := run_status ended
  have answered : machine.answer count = .ok machine.status := by
    rw [answer, stepped_of_stopped stopped, step_of_stopped stopped]
  rw [stepped_of_stopped stopped, answered] at reported
  rw [stepped_of_stopped stopped, failed] at status
  refine ⟨status, ?_⟩
  rw [reported]
  exact machine.finish_eq_halted_iff

/-- An exit code of zero tells that the machine has halted, and a machine that fails during the
run ends it with the fault of the step that failed, as long as no step before the run returned a
fault. If one did, the run reports nothing of it: its exit code is zero if the last flush
succeeds. -/
theorem run_reports_own_faults {machine last : Machine} {ending : Ending} {count budget : Nat}
    (fresh : machine.status = .running)
    (ended : (machine.stepped count).run budget = some (ending, last)) :
    ((∀ earlier < count, ∀ fault, machine.answer earlier ≠ .error fault) →
      (ending.code = 0 → last.status = .halted) ∧
      (last.status = .failed → ∃ later fault,
        machine.answer (count + later) = .error fault ∧ ending = .failed fault)) ∧
    (∀ earlier < count, ∀ fault, machine.answer earlier = .error fault →
      last.status = .failed ∧
      (ending.code = 0 ↔ (machine.stepped count).channels.flush.1 = .ok ())) := by
  have failed_before := failed_iff_fault fresh count
  rw [Ending.code_eq_zero_iff]
  constructor
  · intro faultless
    have sound : (machine.stepped count).status ≠ .failed := by
      intro failed
      obtain ⟨earlier, before, fault, fails⟩ := failed_before.mp failed
      exact faultless earlier before fault fails
    rcases run_of_not_failed sound ended with ⟨later, fault, answered, reported⟩ | halted
    · constructor
      · intro success
        rw [reported] at success
        cases success
      · intro _
        refine ⟨later, fault, ?_, reported⟩
        rw [answer, stepped_add]
        exact answered
    · constructor
      · exact fun _ => halted
      · intro failed
        rw [halted] at failed
        cases failed
  · intro earlier before fault fails
    exact run_of_failed (failed_before.mpr ⟨earlier, before, fault, fails⟩) ended

/-- A machine that divided by zero in a step before the run. -/
theorem run_reports_own_faults_forgotten :
    let machine : Machine :=
      { store := ⟨#[some #[0x50000000]], []⟩, channels := { input := [] } }
    let last := ((machine.stepped 1).finish (.ok ())).2
    machine.status = .running ∧ (machine.stepped 1).run 1 = some (.halted, last) ∧
    machine.answer 0 = .error .divideByZero ∧ last.status = .failed ∧
    (Ending.halted.code = 0 ↔ (machine.stepped 1).channels.flush.1 = .ok ()) := by
  intro machine last
  have ended : (machine.stepped 1).run 1 = some (.halted, last) := by decide +kernel
  have fails : machine.answer 0 = .error .divideByZero := by decide +kernel
  have forgotten := (run_reports_own_faults rfl ended).2 0 Nat.zero_lt_one _ fails
  exact ⟨rfl, ended, fails, forgotten⟩

/-- So it is not true of every machine that a run reports the failure it has reached. -/
theorem failed_machine_reports_success :
    ¬ ∀ (image : List Delivery) (channels : Channels) (config : Config) (machine last : Machine)
        (events : List Event) (ending : Ending) (count budget : Nat),
      ofImage image channels config = (.ok machine, events) →
      (machine.stepped count).run budget = some (ending, last) →
      (ending.code = 0 → last.status = .halted) ∧ (last.status = .failed → ending.code = 1) := by
  intro reports
  let machine : Machine :=
    { store := ⟨#[some #[0x50000000]], []⟩
      channels := { input := [] }
      log := #[.store (.mapped .program 1), .loaded 1] }
  have loaded : ofImage [.chunk [0x50, 0, 0, 0]] { input := [] } {} =
      (.ok machine, [.store (.mapped .program 1), .loaded 1]) := by decide +kernel
  have ended : (machine.stepped 1).run 1 =
      some (.halted, ((machine.stepped 1).finish (.ok ())).2) := by decide +kernel
  have halted := (reports _ _ _ _ _ _ _ 1 1 loaded ended).1 rfl
  exact absurd halted (by decide +kernel)

end Machine

end UniversalMachine
