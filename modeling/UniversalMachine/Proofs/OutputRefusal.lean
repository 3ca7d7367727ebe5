import UniversalMachine.Proofs.LoadedMachine
import UniversalMachine.Proofs.SideBySide

/-!
# Refused output

The output policy has a say in one thing only: whether a word that is no byte may be written. Until
the rejecting policy refuses such a word, a machine does the same under either policy. The step
that it refuses is the one in which the truncating policy writes the low byte of the word.
-/

namespace UniversalMachine

namespace Machine

/-- The same machine under another output policy. -/
def withPolicy (machine : Machine) (policy : OutputPolicy) : Machine :=
  { machine with config := { machine.config with outputPolicy := policy } }

variable {machine : Machine} {value : Word}

/-! ## The refusal -/

/-- Nothing but an output instruction is refused in this way, and only by the rejecting policy. -/
theorem Fails.outOfRange (fails : machine.Fails (.outputOutOfRange value)) :
    ∃ val, machine.upcoming = .ok (.output val) ∧ machine.word val = value ∧
      256 ≤ value.toNat ∧ machine.config.outputPolicy = .reject := by
  cases fails with
  | refused refused =>
      cases refused with
      | fetch within fails => cases fails
  | @operation word op within fetched number fails =>
      cases op with
      | output =>
          have slot : View.slot word.toNat 0 = Layout.register Layout.slotC word :=
            slot_eq Layout.slotC word
          rw [slot] at fails
          rcases fails with ⟨wide, reject, same⟩ | ⟨-, error, -, other⟩
          · cases same
            refine ⟨Layout.register Layout.slotC word, ?_, rfl, wide, reject⟩
            exact upcoming_eq_ok_iff.mpr ⟨within, word, .output, fetched, number, rfl⟩
          · cases other
      | load | store => cases fails
      | divide => cases fails.2
      | map | unmap => rcases fails with ⟨-, other⟩ | ⟨-, -, other⟩ <;> cases other
      | input =>
          obtain ⟨error, -, other⟩ := fails
          cases other
      | loadProgram => cases fails.2.2
      | conditionalMove | add | multiply | nand | halt | loadImmediate => exact fails.elim

/-! ## One step under both policies -/

/-- A machine that rejects, and the same machine that truncates. -/
def Policies (rejecting truncating : Machine) : Prop :=
  rejecting.config.outputPolicy = .reject ∧ truncating = rejecting.withPolicy .truncate

theorem coupling_policies : Coupling Policies where
  pc := by
    rintro machine _ ⟨-, rfl⟩
    rfl
  status := by
    rintro machine _ ⟨-, rfl⟩
    rfl
  move := by
    rintro machine _ ⟨reject, rfl⟩ pc
    exact ⟨reject, rfl⟩
  stop := by
    rintro machine _ ⟨reject, rfl⟩ status
    exact ⟨reject, rfl⟩

theorem unseenOffline_withPolicy (policy : OutputPolicy) :
    UnseenOffline fun machine => machine.withPolicy policy where
  registers _ := rfl
  store _ := rfl
  memory _ := rfl
  put _ _ _ := rfl
  note _ _ := rfl
  keep _ _ := rfl

theorem input_withPolicy (machine : Machine) (policy : OutputPolicy) (out : Register) :
    (machine.withPolicy policy).input out =
      ((machine.input out).1, (machine.input out).2.withPolicy policy) := by
  simp only [input, takeChannels, withPolicy]
  generalize machine.channels.receive = answer
  obtain ⟨received, channels⟩ := answer
  cases received <;> rfl

/-- A byte that may be written under one policy is written under any other that allows it. -/
theorem output_withPolicy {policy : OutputPolicy} {byte : UInt8}
    (allowed : machine.config.outputPolicy.byte? value = some byte)
    (allowed_too : policy.byte? value = some byte) :
    (machine.withPolicy policy).output value =
      ((machine.output value).1, (machine.output value).2.withPolicy policy) := by
  have delivered : (machine.withPolicy policy).channels.deliver byte =
      machine.channels.deliver byte := rfl
  rw [output_of_some allowed rfl, output_of_some allowed_too delivered]
  rfl

/-- An instruction that is not refused is executed in the same way by a machine that truncates. -/
theorem execute_withPolicy {instruction : Instruction}
    (accepted : ∀ val, instruction = .output val →
      machine.config.outputPolicy.byte? (machine.word val) ≠ none) :
    (machine.withPolicy .truncate).execute instruction =
      ((machine.execute instruction).1, (machine.execute instruction).2.withPolicy .truncate) := by
  cases instruction with
  | output val =>
      obtain ⟨byte, allowed⟩ := Option.ne_none_iff_exists'.mp (accepted val rfl)
      obtain ⟨-, low⟩ := OutputPolicy.byte?_eq_some_iff.mp allowed
      exact output_withPolicy allowed (OutputPolicy.byte?_eq_some_iff.mpr ⟨.inr rfl, low⟩)
  | input out => exact input_withPolicy machine .truncate out
  | conditionalMove | load | store | add | multiply | divide | nand | halt | map | unmap
  | loadProgram | loadImmediate =>
      exact (unseenOffline_withPolicy .truncate).execute machine (by simp [Instr.opcode])

/-- A step that is not refused is the same under both policies. -/
theorem step_withPolicy {other : Machine} (policies : Policies machine other)
    (accepted : ∀ value, machine.step.1 ≠ .error (.outputOutOfRange value)) :
    Together Policies machine.step other.step := by
  obtain ⟨reject, rfl⟩ := policies
  refine coupling_policies.step ⟨reject, rfl⟩ (fun _ => rfl) ?_
  intro running instruction upcoming
  let entered := machine.enter instruction
  have allowed : ∀ val, instruction = .output val →
      entered.config.outputPolicy.byte? (entered.word val) ≠ none := by
    rintro val rfl refused
    apply accepted (machine.word val)
    have failed : (machine.enter (.output val)).execute (.output val) =
        (.error (.outputOutOfRange (machine.word val)), machine.enter (.output val)) :=
      output_of_none refused
    rw [step_of_failed running upcoming failed]
  have same : (machine.withPolicy .truncate).enter instruction =
      entered.withPolicy .truncate := rfl
  obtain ⟨-, config, -⟩ := (hasEffect_execute entered instruction).frame
  rw [same, execute_withPolicy allowed]
  exact ⟨rfl, (congrArg Config.outputPolicy config).trans reject, rfl⟩

/-! ## Many steps under both policies -/

variable {rejecting truncating : Machine}

theorem stepped_withPolicy {count : Nat} (policies : Policies rejecting truncating)
    (accepted : ∀ earlier < count, ∀ value,
      rejecting.answer earlier ≠ .error (.outputOutOfRange value)) :
    (∀ earlier < count, truncating.answer earlier = rejecting.answer earlier) ∧
      truncating.stepped count = (rejecting.stepped count).withPolicy .truncate := by
  obtain ⟨answers, -, same⟩ := stepped_together policies fun earlier before other related =>
    step_withPolicy related (accepted earlier before)
  exact ⟨answers, same⟩

theorem run_withPolicy (policies : Policies rejecting truncating)
    (accepted : ∀ count value, rejecting.answer count ≠ .error (.outputOutOfRange value))
    (budget : Nat) :
    truncating.run budget =
      (rejecting.run budget).map fun (ending, last) => (ending, last.withPolicy .truncate) := by
  have finish (stopped : Except Fault Unit) {machine other : Machine}
      (related : Policies machine other) :
      Together Policies (machine.finish stopped) (other.finish stopped) := by
    obtain ⟨reject, rfl⟩ := related
    exact ⟨rfl, reject, rfl⟩
  have alike := run_together policies
    (fun earlier other related => step_withPolicy related (accepted earlier)) finish budget
  generalize rejecting.run budget = left, truncating.run budget = right at alike ⊢
  cases alike with
  | none => rfl
  | some both =>
      obtain ⟨ending, -, last⟩ := both
      exact congrArg some (Prod.ext ending last)

/-- The first step that is refused writes a byte if the policy is the other one. -/
theorem refused_withPolicy {count : Nat} (policies : Policies rejecting truncating)
    (runnable : rejecting.store.Runnable)
    (refused : rejecting.answer count = .error (.outputOutOfRange value)) :
    let now := truncating.stepped count
    (∀ earlier < count, truncating.answer earlier = rejecting.answer earlier) ∧
    now = (rejecting.stepped count).withPolicy .truncate ∧ 255 < value.toNat ∧
    ∃ (val : Register) (byte : UInt8), (rejecting.stepped count).upcoming = .ok (.output val) ∧
      now.upcoming = .ok (.output val) ∧ now.word val = value ∧
      byte.toNat = value.toNat % 256 ∧
      let written := now.channels.deliver byte
      (truncating.stepped (count + 1)).channels = written.2 ∧
      (written.1 = .ok () → now.step = (.ok .running,
        { now.enter (.output val) with channels := written.2, pc := now.pc + 1 })) ∧
      (∀ error, written.1 = .error error → truncating.answer count = .error (.channel error)) := by
  intro now
  have running := (status_of_fault (Prod.ext refused rfl)).1
  have runs := runsFor_of_running running
  have accepted : ∀ earlier < count, ∀ value,
      rejecting.answer earlier ≠ .error (.outputOutOfRange value) := by
    intro earlier before value failed
    rw [runs earlier before] at failed
    cases failed
  obtain ⟨answers, (same : now = _)⟩ := stepped_withPolicy policies accepted
  have wf := (runs.runnable runnable).wellFormed
  obtain ⟨val, upcoming, word, wide, -⟩ := ((step_eq_error_iff wf running).mp refused).outOfRange
  have now_running : now.status = .running := by
    rw [same]
    exact running
  have now_upcoming : now.upcoming = .ok (.output val) := by
    rw [same]
    exact upcoming
  have now_word : now.word val = value := by
    rw [same]
    exact word
  have allowed : now.config.outputPolicy.byte? (now.word val) = some value.toUInt8 := by
    rw [same, OutputPolicy.byte?_eq_some_iff]
    exact ⟨.inr rfl, congrArg UInt32.toUInt8 word.symm⟩
  obtain ⟨channels, succeeds, fails⟩ := step_of_output now_running now_upcoming allowed
  refine ⟨answers, same, wide, val, value.toUInt8, upcoming, now_upcoming, now_word,
    UInt32.toNat_toUInt8 value, ?_, succeeds, fails⟩
  rw [stepped_succ]
  exact channels

/-- A machine that truncates refuses no word. -/
theorem answer_ne_outOfRange (runnable : truncating.store.Runnable)
    (truncates : truncating.config.outputPolicy = .truncate) (count : Nat) (value : Word) :
    truncating.answer count ≠ .error (.outputOutOfRange value) := by
  intro refused
  have running := (status_of_fault (Prod.ext refused rfl)).1
  have runs := runsFor_of_running running
  have wf := (runs.runnable runnable).wellFormed
  obtain ⟨val, -, -, -, reject⟩ := ((step_eq_error_iff wf running).mp refused).outOfRange
  rw [runs.steps.2.1, truncates] at reject
  cases reject

/-- The two policies differ in refusals only. As long as no step of the machine that rejects is
refused, the machine that truncates answers the same to each step and is the same machine but for
the policy; if none ever is, the same holds of the runs. If a step is refused, the two are the
same up to there; the word that it was to write is no byte, and the machine that truncates
executes the same instruction in that step by writing the low byte of the word, which is all that
can fail. It never refuses a word itself. -/
theorem policies_differ_in_refusals {image : List Delivery} {channels : Channels} {config : Config}
    {rejecting : Machine} {events : List Event}
    (loaded : ofImage image channels { config with outputPolicy := .reject } =
      (.ok rejecting, events)) :
    ∃ truncating,
      ofImage image channels { config with outputPolicy := .truncate } =
        (.ok truncating, events) ∧
      (∀ count,
        (∀ earlier < count, ∀ value,
          rejecting.answer earlier ≠ .error (.outputOutOfRange value)) →
        (∀ earlier < count, truncating.answer earlier = rejecting.answer earlier) ∧
        truncating.stepped count = (rejecting.stepped count).withPolicy .truncate) ∧
      ((∀ count value, rejecting.answer count ≠ .error (.outputOutOfRange value)) →
        ∀ budget, truncating.run budget =
          (rejecting.run budget).map fun (ending, last) =>
            (ending, last.withPolicy .truncate)) ∧
      (∀ count value, rejecting.answer count = .error (.outputOutOfRange value) →
        let now := truncating.stepped count
        (∀ earlier < count, truncating.answer earlier = rejecting.answer earlier) ∧
        now = (rejecting.stepped count).withPolicy .truncate ∧ 255 < value.toNat ∧
        ∃ (val : Register) (byte : UInt8),
          (rejecting.stepped count).upcoming = .ok (.output val) ∧
          now.upcoming = .ok (.output val) ∧ now.word val = value ∧
          byte.toNat = value.toNat % 256 ∧
          let written := now.channels.deliver byte
          (truncating.stepped (count + 1)).channels = written.2 ∧
          (written.1 = .ok () → now.step = (.ok .running,
            { now.enter (.output val) with channels := written.2, pc := now.pc + 1 })) ∧
          (∀ error, written.1 = .error error →
            truncating.answer count = .error (.channel error))) ∧
      ∀ count value, truncating.answer count ≠ .error (.outputOutOfRange value) := by
  have runnable := runnable_ofImage loaded
  obtain ⟨store, read, rfl⟩ := ofImage_eq_ok loaded
  generalize made : Machine.mk 0 .zeroed store channels { config with outputPolicy := .reject }
    .empty .running events.toArray = rejecting at runnable ⊢
  have policies : Policies rejecting (rejecting.withPolicy .truncate) := by
    rw [← made]
    exact ⟨rfl, rfl⟩
  refine ⟨rejecting.withPolicy .truncate, ?_, ?_, ?_, ?_, ?_⟩
  · rw [← made]
    refine ofImage_of_load ?_ channels
    exact read
  · exact fun count accepted => stepped_withPolicy policies accepted
  · exact fun accepted budget => run_withPolicy policies accepted budget
  · exact fun count value refused => refused_withPolicy policies runnable refused
  · have still_runnable : (rejecting.withPolicy .truncate).store.Runnable := runnable
    exact answer_ne_outOfRange still_runnable rfl

/-- A program that writes 256, which the truncating policy turns into a zero byte. -/
theorem policies_differ_in_refusals_wide :
    let image : List Delivery := [.chunk [0xD2, 0, 1, 0, 0xA0, 0, 0, 1, 0x70, 0, 0, 0]]
    let config : Config := {}
    ∃ rejecting truncating events,
      ofImage image { input := [] } { config with outputPolicy := .reject } =
        (.ok rejecting, events) ∧
      ofImage image { input := [] } { config with outputPolicy := .truncate } =
        (.ok truncating, events) ∧
      rejecting.answer 1 = .error (.outputOutOfRange 256) ∧
      truncating.answer 0 = rejecting.answer 0 ∧
      truncating.stepped 1 = (rejecting.stepped 1).withPolicy .truncate ∧
      ∃ byte : UInt8, byte.toNat = 256 % 256 ∧
        (truncating.stepped 2).channels = ((truncating.stepped 1).channels.deliver byte).2 := by
  intro image config
  let machine : Machine :=
    { store := ⟨#[some #[0xD2000100, 0xA0000001, 0x70000000]], []⟩
      channels := { input := [] }
      log := #[.store (.mapped .program 3), .loaded 3] }
  have loaded : ofImage image { input := [] } { config with outputPolicy := .reject } =
      (.ok machine, [.store (.mapped .program 3), .loaded 3]) := by decide +kernel
  have refused : machine.answer 1 = .error (.outputOutOfRange 256) := by decide +kernel
  obtain ⟨truncating, loaded_too, -, -, at_refusal, -⟩ := policies_differ_in_refusals loaded
  obtain ⟨answers, same, -, val, byte, -, -, -, low, channels, -⟩ := at_refusal 1 256 refused
  exact ⟨machine, truncating, _, loaded, loaded_too, refused, answers 0 Nat.zero_lt_one, same,
    byte, low, channels⟩

end Machine

end UniversalMachine
