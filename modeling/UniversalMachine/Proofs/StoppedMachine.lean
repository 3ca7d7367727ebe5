import UniversalMachine.Proofs.Executed
import UniversalMachine.Proofs.ImageLoading

/-!
# Machines that have stopped

A machine that has halted or failed has no segment left, and no step changes anything about it. So
of all its steps at most one returns a fault, and at most one executes a halt.
-/

namespace UniversalMachine

namespace Machine

variable {machine : Machine}

/-- How a machine comes about: around a store, or by loading an image. -/
inductive Created : Machine → Prop where
  | around (store : Store) (channels : Channels) (config : Config) (log : Array Event) :
      Created { store, channels, config, log }
  | loaded {image : List Delivery} {channels : Channels} {config : Config} {machine : Machine}
      {events : List Event} (loaded : ofImage image channels config = (.ok machine, events)) :
      Created machine

theorem Created.fresh (created : Created machine) :
    machine.status = .running ∧ machine.profile = .empty := by
  cases created with
  | around store channels config log => exact ⟨rfl, rfl⟩
  | loaded loaded => exact ofImage_fresh loaded

/-! ## One step -/

/-- An instruction ends the program if it is a halt, and only then. -/
theorem execute_halts_iff {after : Machine} {instruction : Instruction}
    {result : Except Fault Next} (executed : machine.execute instruction = (result, after)) :
    result = .ok .halt ↔ instruction.opcode = .halt := by
  constructor
  · rintro rfl
    cases effect_of_execute executed with
    | halted => rfl
  · intro halt
    cases instruction <;> cases halt
    exact (congrArg Prod.fst executed).symm

/-- So a step halts the machine if it executes a halt, and only then. -/
theorem step_halts_iff (running : machine.status = .running) :
    machine.step.2.status = .halted ↔ machine.executing?.map Instr.opcode = some .halt := by
  rw [executing?, if_pos running]
  rcases step_cases running with ⟨fault, upcoming, refused⟩ |
    ⟨instruction, way, after, upcoming, executed, settled⟩ |
    ⟨instruction, fault, after, upcoming, executed, failed⟩
  · rw [upcoming, refused]
    simp [Except.toOption, stop]
  · have still : after.status = .running := (effect_of_execute executed).frame.2.2.2.trans running
    rw [upcoming, settled, Except.toOption, Option.map_some, Option.some_inj,
      ← execute_halts_iff executed]
    cases way <;> simp [settle, stop, still]
  · rw [upcoming, failed, Except.toOption, Option.map_some, Option.some_inj,
      ← execute_halts_iff executed]
    simp [stop]

/-- A step that ends the machine releases its segments. -/
theorem step_releases (running : machine.status = .running)
    (stopped : machine.step.2.status ≠ .running) : machine.step.2.store = ∅ := by
  rcases step_cases running with ⟨fault, -, refused⟩ |
    ⟨instruction, way, after, -, executed, settled⟩ | ⟨instruction, fault, after, -, -, failed⟩
  · rw [refused, stop]
  · rw [settled] at stopped ⊢
    have still : after.status = .running := (effect_of_execute executed).frame.2.2.2.trans running
    cases way with
    | halt => rfl
    | advance | jump target => exact absurd still stopped
  · rw [failed, stop]

/-- What holds of a machine between steps: it has segments only while it runs, and has counted a
halt if it has halted. -/
structure TornDown (machine : Machine) : Prop where
  released : machine.status ≠ .running → machine.store = ∅
  halts : machine.profile.count .halt = if machine.status = .halted then 1 else 0

theorem Created.tornDown (created : Created machine) : machine.TornDown := by
  obtain ⟨running, unused⟩ := created.fresh
  constructor
  · exact fun stopped => absurd running stopped
  · rw [unused, running]
    rfl

theorem TornDown.step (tornDown : machine.TornDown) : machine.step.2.TornDown := by
  by_cases running : machine.status = .running
  · constructor
    · exact step_releases running
    · rw [count_step, tornDown.halts, if_neg (by simp [running]), Nat.zero_add]
      simp only [step_halts_iff running]
  · rwa [step_of_stopped running]

/-! ## Many steps -/

theorem TornDown.stepped (tornDown : machine.TornDown) (count : Nat) :
    (machine.stepped count).TornDown := by
  induction count with
  | zero => exact tornDown
  | succ count ih =>
      rw [stepped_succ]
      exact ih.step

/-- After a fault no step returns another. -/
theorem answer_of_fault {earlier later : Nat} {fault : Fault}
    (failed : machine.answer earlier = .error fault) (lt : earlier < later) :
    machine.answer later = .ok .failed := by
  have status : (machine.stepped (earlier + 1)).status = .failed := by
    rw [stepped_succ]
    exact (status_of_fault (Prod.ext failed rfl)).2
  have stopped : (machine.stepped (earlier + 1)).status ≠ .running := by simp [status]
  obtain ⟨more, rfl⟩ := Nat.exists_eq_add_of_lt lt
  rw [answer, Nat.add_right_comm, stepped_add, stepped_of_stopped stopped,
    step_of_stopped stopped, status]

/-- The end of a machine is final. Once it does not run any more, all its segments are released, and
every further step returns the same status and leaves the machine as it is, with all that has passed
its channels and all that was logged. At most one step of its life returns a fault. It has executed
a halt if its status says so, and then one. -/
theorem end_is_final (created : Created machine) (count : Nat) :
    let now := machine.stepped count
    (now.status ≠ .running →
      now.store = ∅ ∧ ∀ more, now.answer more = .ok now.status ∧ now.stepped more = now) ∧
    (∀ earlier later fault other, machine.answer earlier = .error fault →
      machine.answer later = .error other → earlier = later) ∧
    now.profile.count .halt ≤ 1 ∧ (now.profile.count .halt = 1 ↔ now.status = .halted) := by
  intro now
  have tornDown : now.TornDown := created.tornDown.stepped count
  refine ⟨?_, ?_, ?_, ?_⟩
  · intro stopped
    refine ⟨tornDown.released stopped, fun more => ?_⟩
    have same := stepped_of_stopped stopped more
    exact ⟨by rw [answer, same, step_of_stopped stopped], same⟩
  · intro earlier later fault other first second
    rcases Nat.lt_trichotomy earlier later with before | same | after
    · rw [answer_of_fault first before] at second
      cases second
    · exact same
    · rw [answer_of_fault second after] at first
      cases first
  · rw [tornDown.halts]
    split <;> decide
  · rw [tornDown.halts]
    simp

/-- A program that maps a segment, writes a byte and halts, and one that divides by zero, each
stepped further than to its end. -/
theorem end_is_final_halted :
    (∃ machine, Created machine ∧ (machine.stepped 5).status = .halted ∧
      (machine.stepped 5).store = ∅ ∧ (machine.stepped 5).profile.count .halt = 1 ∧
      ∀ more, (machine.stepped 5).stepped more = machine.stepped 5) ∧
    (∃ machine, Created machine ∧ (machine.stepped 2).status = .failed ∧
      (machine.stepped 2).store = ∅ ∧ machine.answer 0 = .error .divideByZero ∧
      ∀ later fault, machine.answer later = .error fault → later = 0) := by
  constructor
  · let machine : Machine :=
      { store := ⟨#[some #[0xD2000005, 0x80000011, 0xA0000002, 0x70000000]], []⟩
        channels := { input := [] } }
    have created : Created machine := .around _ _ _ _
    have status : (machine.stepped 5).status = .halted := by decide +kernel
    obtain ⟨final, -, -, halts⟩ := end_is_final created 5
    obtain ⟨released, same⟩ := final (by simp [status])
    exact ⟨machine, created, status, released, halts.mpr status, fun more => (same more).2⟩
  · let machine : Machine :=
      { store := ⟨#[some #[0x50000000]], []⟩
        channels := { input := [] } }
    have created : Created machine := .around _ _ _ _
    have status : (machine.stepped 2).status = .failed := by decide +kernel
    have fails : machine.answer 0 = .error .divideByZero := by decide +kernel
    obtain ⟨final, once, -, -⟩ := end_is_final created 2
    obtain ⟨released, -⟩ := final (by simp [status])
    exact ⟨machine, created, status, released, fails,
      fun later fault failed => (once 0 later _ fault fails failed).symm⟩

end Machine

end UniversalMachine
