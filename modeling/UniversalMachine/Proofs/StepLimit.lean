import UniversalMachine.Proofs.ImageLoading
import UniversalMachine.Proofs.SideBySide

/-!
# Step limits

A step limit looks at the profile and at nothing else. Under a limit that is not reached yet
a machine does exactly what it does without one, so a limit can only cut a run short.
-/

namespace UniversalMachine

namespace Machine

/-- The same machine under another step limit. -/
def withLimit (machine : Machine) (limit : Option Nat) : Machine :=
  { machine with config := { machine.config with stepLimit := limit } }

/-! ## The limit has no part in what is executed -/

section Execute

variable (machine : Machine) (limit : Option Nat)

theorem unseen_withLimit : Unseen fun machine => machine.withLimit limit where
  registers _ := rfl
  channels _ := rfl
  outputPolicy _ := rfl
  put _ _ _ := rfl
  exchange _ _ := rfl

theorem unseenOffline_withLimit : UnseenOffline fun machine => machine.withLimit limit where
  registers _ := rfl
  store _ := rfl
  memory _ := rfl
  put _ _ _ := rfl
  note _ _ := rfl
  keep _ _ := rfl

theorem execute_withLimit (instruction : Instruction) :
    (machine.withLimit limit).execute instruction =
      ((machine.execute instruction).1, (machine.execute instruction).2.withLimit limit) := by
  cases instruction with
  | output | input => exact (unseen_withLimit limit).execute machine (by simp [Instr.opcode])
  | conditionalMove | load | store | add | multiply | divide | nand | halt | map | unmap
  | loadProgram | loadImmediate =>
      exact (unseenOffline_withLimit limit).execute machine (by simp [Instr.opcode])

theorem finish_withLimit (stopped : Except Fault Unit) :
    (machine.withLimit limit).finish stopped =
      ((machine.finish stopped).1, (machine.finish stopped).2.withLimit limit) :=
  rfl

end Execute

/-- A machine, and the same machine under a limit. -/
def UnderLimit (limit : Nat) (machine limited : Machine) : Prop :=
  limited = machine.withLimit (some limit)

theorem coupling_underLimit (limit : Nat) : Coupling (UnderLimit limit) where
  pc := by
    rintro machine _ rfl
    rfl
  status := by
    rintro machine _ rfl
    rfl
  move := by
    rintro machine _ rfl pc
    rfl
  stop := by
    rintro machine _ rfl status
    rfl

variable {machine : Machine} {limit count : Nat}

/-- While the limit is not reached, a step under it is a step without it. -/
theorem step_withLimit (unlimited : machine.config.stepLimit = none)
    (room : machine.profile.steps < limit) :
    (machine.withLimit (some limit)).step =
      (machine.step.1, machine.step.2.withLimit (some limit)) := by
  have same : (machine.withLimit (some limit)).upcoming = machine.upcoming := by
    have here : ¬ limit ≤ (machine.withLimit (some limit)).profile.steps := Nat.not_le.mpr room
    rw [upcoming, upcoming, unlimited]
    exact if_neg here
  have together : Together (UnderLimit limit) machine.step (machine.withLimit (some limit)).step :=
    (coupling_underLimit limit).step rfl (fun _ => same) fun _ instruction _ =>
      Prod.ext_iff.mp (execute_withLimit (machine.enter instruction) (some limit) instruction)
  exact Prod.ext together.1 together.2

/-- When the limit is reached, nothing more is fetched. -/
theorem step_at_limit (running : machine.status = .running)
    (reached : limit ≤ machine.profile.steps) :
    (machine.withLimit (some limit)).step =
      (.error (.stepLimitExceeded limit), (machine.withLimit (some limit)).stop .failed) :=
  step_of_refused running (if_pos reached)

/-! ## Two runs side by side -/

/-- The two machines stay side by side for as long as the limit leaves room. -/
theorem stepped_withLimit (unlimited : machine.config.stepLimit = none)
    (runs : machine.RunsFor count) (room : machine.profile.steps + count ≤ limit) :
    (machine.withLimit (some limit)).RunsFor count ∧
      (machine.withLimit (some limit)).stepped count =
        (machine.stepped count).withLimit (some limit) := by
  have together : ∀ earlier < count, ∀ limited, UnderLimit limit (machine.stepped earlier) limited →
      Together (UnderLimit limit) (machine.stepped earlier).step limited.step := by
    rintro earlier before _ rfl
    obtain ⟨-, config, steps⟩ := (runs.mono (Nat.le_of_lt before)).steps
    have before_limit : (machine.stepped earlier).profile.steps < limit := by omega
    exact Prod.ext_iff.mp (step_withLimit (config ▸ unlimited) before_limit)
  have start : UnderLimit limit machine (machine.withLimit (some limit)) := rfl
  obtain ⟨answers, side_by_side⟩ := stepped_together start together
  exact ⟨fun earlier before => (answers earlier before).trans (runs earlier before), side_by_side⟩

/-- A first stop within the limit ends both runs in the same way. -/
theorem run_withLimit_of_firstStop {number : Nat} (unlimited : machine.config.stepLimit = none)
    (first : machine.FirstStop number) (room : machine.profile.steps + number ≤ limit) :
    ∃ ending last, ∀ budget, number ≤ budget →
      machine.run budget = some (ending, last) ∧
      (machine.withLimit (some limit)).run budget =
        some (ending, last.withLimit (some limit)) := by
  obtain ⟨count, rfl, runs, stops⟩ := first
  obtain ⟨-, config, steps⟩ := runs.steps
  have up_to_stop : machine.profile.steps + count ≤ limit := by omega
  have before_limit : (machine.stepped count).profile.steps < limit := by omega
  obtain ⟨limited_runs, side_by_side⟩ := stepped_withLimit unlimited runs up_to_stop
  have alike := step_withLimit (config ▸ unlimited) before_limit
  have answers : (machine.withLimit (some limit)).answer count = machine.answer count := by
    rw [answer, side_by_side, alike, answer]
  let ended := (machine.stepped count).step.2.finish ((machine.answer count).map fun _ => ())
  refine ⟨ended.1, ended.2, fun budget enough => ⟨run_of_firstStop runs stops enough, ?_⟩⟩
  rw [run_of_firstStop limited_runs (answers ▸ stops) enough, answers, side_by_side, alike,
    finish_withLimit]

/-- If there is no stop within the limit, the limited run ends where the limit is reached, and
with the fault that says so. -/
theorem run_withLimit_of_runsFor (running : machine.status = .running)
    (unlimited : machine.config.stepLimit = none) (fresh : machine.profile.steps = 0)
    (runs : machine.RunsFor limit) :
    ∃ last, (∀ budget, limit < budget →
        (machine.withLimit (some limit)).run budget =
          some (.failed (.stepLimitExceeded limit), last)) ∧
      last.profile.steps = limit ∧ last.profile = (machine.stepped limit).profile ∧
      last.pc = (machine.stepped limit).pc ∧
      last.registers = (machine.stepped limit).registers ∧
      last.channels = (machine.stepped limit).channels.flush.2 := by
  obtain ⟨status, -, steps⟩ := runs.steps
  have up_to_limit : machine.profile.steps + limit ≤ limit := by omega
  have at_limit : limit ≤ (machine.stepped limit).profile.steps := by omega
  obtain ⟨limited_runs, side_by_side⟩ := stepped_withLimit unlimited runs up_to_limit
  have stop := step_at_limit (status.trans running) at_limit
  have answer : (machine.withLimit (some limit)).answer limit =
      .error (.stepLimitExceeded limit) := by
    rw [answer, side_by_side, stop]
  let stopped := ((machine.stepped limit).withLimit (some limit)).stop .failed
  refine ⟨(stopped.finish (.error (.stepLimitExceeded limit))).2, fun budget enough => ?_, ?_⟩
  · rw [run_of_firstStop limited_runs (by simp [answer]) enough, answer, side_by_side, stop]
    rfl
  · have counted : (machine.stepped limit).profile.steps = limit := by omega
    exact ⟨counted, rfl, rfl, rfl, rfl⟩

/-- A step limit only cuts a run short. If the machine without a limit stops at one of the first
`limit` steps, the limited run ends in the same way and leaves the same machine. If it does
not, the limited run ends after exactly `limit` instructions, with the fault that says so, and
leaves what these instructions made, the output flushed once more. Either way it ends. -/
theorem limit_cuts_short {image : List Delivery} {channels : Channels} {config : Config}
    {machine : Machine} {events : List Event}
    (loaded : ofImage image channels { config with stepLimit := none } = (.ok machine, events))
    (limit : Nat) :
    ∃ limited,
      ofImage image channels { config with stepLimit := some limit } = (.ok limited, events) ∧
      (∀ number, machine.FirstStop number → number ≤ limit →
        ∃ ending last, ∀ budget, number ≤ budget →
          machine.run budget = some (ending, last) ∧
          limited.run budget = some (ending, last.withLimit (some limit))) ∧
      ((∀ number, machine.FirstStop number → limit < number) →
        ∃ last, (∀ budget, limit < budget →
            limited.run budget = some (.failed (.stepLimitExceeded limit), last)) ∧
          last.profile.steps = limit ∧ last.profile = (machine.stepped limit).profile ∧
          last.pc = (machine.stepped limit).pc ∧
          last.registers = (machine.stepped limit).registers ∧
          last.channels = (machine.stepped limit).channels.flush.2) ∧
      ∃ budget, (limited.run budget).isSome := by
  obtain ⟨store, read, rfl⟩ := ofImage_eq_ok loaded
  generalize fresh : Machine.mk 0 .zeroed store channels { config with stepLimit := none }
    .empty .running events.toArray = machine
  have unlimited : machine.config.stepLimit = none := by rw [← fresh]
  have running : machine.status = .running := by rw [← fresh]
  have unused : machine.profile.steps = 0 := by rw [← fresh]; exact Profile.steps_empty
  refine ⟨machine.withLimit (some limit), ?_, ?_, ?_, ?_⟩
  · rw [← fresh]
    refine ofImage_of_load ?_ channels
    exact read
  · intro number first le
    exact run_withLimit_of_firstStop unlimited first (by omega)
  · intro late
    rcases machine.runsFor_or_firstStop limit with runs | ⟨number, first, le⟩
    · exact run_withLimit_of_runsFor running unlimited unused runs
    · exact absurd (late number first) (Nat.not_lt.mpr le)
  · rcases machine.runsFor_or_firstStop limit with runs | ⟨number, first, le⟩
    · obtain ⟨last, ends, -⟩ := run_withLimit_of_runsFor running unlimited unused runs
      exact ⟨limit + 1, by rw [ends _ (Nat.lt_succ_self limit)]; rfl⟩
    · have room : machine.profile.steps + number ≤ limit := by omega
      obtain ⟨ending, last, ends⟩ := run_withLimit_of_firstStop unlimited first room
      exact ⟨number, by rw [(ends number (Nat.le_refl number)).2]; rfl⟩

/-- The image of a program that loads an immediate value and halts, which takes two steps, under
a limit of two steps. -/
theorem limit_cuts_short_halting :
    let image : List Delivery := [.chunk [0xD0, 0, 0, 1, 0x70, 0, 0, 0]]
    let config : Config := {}
    ∃ machine events,
      ofImage image { input := [] } { config with stepLimit := none } = (.ok machine, events) ∧
      machine.FirstStop 2 ∧
      ∃ limited,
        ofImage image { input := [] } { config with stepLimit := some 2 } =
          (.ok limited, events) ∧
        ∃ ending last, ∀ budget, 2 ≤ budget →
          machine.run budget = some (ending, last) ∧
          limited.run budget = some (ending, last.withLimit (some 2)) := by
  intro image config
  let machine : Machine :=
    { store := ⟨#[some #[0xD0000001, 0x70000000]], []⟩
      channels := { input := [] }
      log := #[.store (.mapped .program 2), .loaded 2] }
  have loaded : ofImage image { input := [] } { config with stepLimit := none } =
      (.ok machine, [.store (.mapped .program 2), .loaded 2]) := by decide +kernel
  have first : machine.FirstStop 2 := by
    refine ⟨1, rfl, ?_, by decide +kernel⟩
    intro earlier before
    obtain rfl := Nat.lt_one_iff.mp before
    decide +kernel
  obtain ⟨limited, limited_loaded, ends, -⟩ := limit_cuts_short loaded 2
  exact ⟨machine, _, loaded, first, limited, limited_loaded, ends 2 first (Nat.le_refl 2)⟩

end Machine

end UniversalMachine
