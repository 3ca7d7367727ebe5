import UniversalMachine.Proofs.Ending
import UniversalMachine.Proofs.ImageLoading
import Mathlib.Computability.Language
import Mathlib.Order.CompletePartialOrder

/-!
# What passes between a machine and its devices

A machine writes bytes one by one, and before it reads it passes on what it has written. So its
transcript is a word of a simple language, in which no read comes before the bytes that were written
earlier have been passed on. Which bytes are in it, and how many flushes, is told by the
instructions that were executed.
-/

namespace UniversalMachine

open scoped Computability

/-! ## The language of transcripts -/

namespace Transfer

def oneByte : Language Transfer :=
  {transfers | ∃ value, transfers = [.byte value]}

def oneFlush : Language Transfer :=
  {[.flush]}

def oneRead : Language Transfer :=
  {[.read]}

/-- Bytes, and flushes that are each followed by the reads they make way for. -/
def paced : Language Transfer :=
  (oneByte∗ * oneFlush * oneRead∗)∗ * oneByte∗

theorem nil_mem_paced : [] ∈ paced :=
  Language.append_mem_mul (Language.nil_mem_kstar _) (Language.nil_mem_kstar _)

theorem mem_reads_iff {transfers : List Transfer} :
    transfers ∈ oneRead∗ ↔ ∃ reads, transfers = List.replicate reads .read := by
  rw [Language.mem_kstar]
  constructor
  · rintro ⟨pieces, rfl, each⟩
    refine ⟨pieces.length, ?_⟩
    rw [List.eq_replicate_of_mem each, List.flatten_replicate_singleton, List.length_replicate]
  · rintro ⟨reads, rfl⟩
    refine ⟨List.replicate reads [.read], List.flatten_replicate_singleton.symm, ?_⟩
    intro piece mem
    exact List.eq_of_mem_replicate mem

theorem paced_mul_byte : paced * oneByte ≤ paced := by
  rw [paced, mul_assoc]
  exact mul_le_mul_right kstar_mul_le_kstar _

theorem paced_mul_reads : paced * (oneFlush * oneRead∗) ≤ paced := by
  calc
    paced * (oneFlush * oneRead∗) =
        (oneByte∗ * oneFlush * oneRead∗)∗ * (oneByte∗ * oneFlush * oneRead∗) := by
      simp only [paced, mul_assoc]
    _ ≤ (oneByte∗ * oneFlush * oneRead∗)∗ := kstar_mul_le_kstar
    _ ≤ paced := le_mul_of_one_le_right' one_le_kstar

theorem append_byte_mem_paced {transfers : List Transfer} (paced_so_far : transfers ∈ paced)
    (value : UInt8) : transfers ++ [.byte value] ∈ paced :=
  paced_mul_byte (Language.append_mem_mul paced_so_far ⟨value, rfl⟩)

theorem append_reads_mem_paced {transfers : List Transfer} (paced_so_far : transfers ∈ paced)
    (reads : Nat) : transfers ++ .flush :: List.replicate reads .read ∈ paced := by
  have flush : [.flush] ∈ oneFlush := rfl
  have asked : .flush :: List.replicate reads .read ∈ oneFlush * oneRead∗ :=
    Language.append_mem_mul flush (mem_reads_iff.mpr ⟨reads, rfl⟩)
  exact paced_mul_reads (Language.append_mem_mul paced_so_far asked)

/-- Before each read stands a flush, with nothing but reads between the two. -/
def flushed : Language Transfer :=
  {transfers | ∀ older newer, transfers = older ++ .read :: newer →
    ∃ earlier reads, older = earlier ++ .flush :: List.replicate reads .read}

theorem mem_flushed_iff {transfers : List Transfer} :
    transfers ∈ flushed ↔ ∀ older newer, transfers = older ++ .read :: newer →
      ∃ earlier reads, older = earlier ++ .flush :: List.replicate reads .read :=
  Iff.rfl

theorem mem_flushed_of_no_read {transfers : List Transfer} (none_read : .read ∉ transfers) :
    transfers ∈ flushed := by
  intro older newer same
  exact absurd (same ▸ List.mem_append_right older List.mem_cons_self) none_read

theorem reads_mem_flushed (reads : Nat) : .flush :: List.replicate reads .read ∈ flushed := by
  intro older newer same
  cases older with
  | nil => cases same
  | cons first older =>
      obtain ⟨rfl, rest⟩ := List.cons.inj same
      obtain ⟨-, all_reads, -⟩ := List.append_eq_replicate_iff.mp rest.symm
      exact ⟨[], older.length, congrArg (Transfer.flush :: ·) all_reads⟩

theorem append_mem_flushed {before since : List Transfer} (first : before ∈ flushed)
    (second : since ∈ flushed) : before ++ since ∈ flushed := by
  intro older newer same
  rcases List.append_eq_append_iff.mp same with ⟨middle, rfl, later⟩ | ⟨middle, early, rest⟩
  · obtain ⟨earlier, reads, rfl⟩ := second middle newer later
    exact ⟨before ++ earlier, reads, (List.append_assoc ..).symm⟩
  · cases middle with
    | nil =>
        -- The read comes first in the second part, where nothing has been flushed yet.
        obtain ⟨earlier, reads, none⟩ := second [] newer rest.symm
        exact absurd none (by simp)
    | cons next middle =>
        obtain ⟨rfl, -⟩ := List.cons.inj rest
        exact first older middle early

theorem flushed_mul_flushed : flushed * flushed ≤ flushed := by
  rintro _ ⟨before, first, since, second, rfl⟩
  exact append_mem_flushed first second

theorem kstar_le_flushed {language : Language Transfer} (le : language ≤ flushed) :
    language∗ ≤ flushed := by
  have start : 1 ≤ flushed := by
    rintro _ rfl
    exact mem_flushed_of_no_read List.not_mem_nil
  exact kstar_le_of_mul_le_left start ((mul_le_mul_right le flushed).trans flushed_mul_flushed)

/-- In a word of this language no read comes before the bytes that stand earlier are flushed. -/
theorem paced_le_flushed : paced ≤ flushed := by
  have bytes : oneByte∗ ≤ flushed := by
    apply kstar_le_flushed
    rintro _ ⟨value, rfl⟩
    exact mem_flushed_of_no_read (by simp)
  have asked : oneFlush * oneRead∗ ≤ flushed := by
    rintro _ ⟨_, rfl, _, reads, rfl⟩
    obtain ⟨number, rfl⟩ := mem_reads_iff.mp reads
    exact reads_mem_flushed number
  have round : oneByte∗ * oneFlush * oneRead∗ ≤ flushed := by
    rw [mul_assoc]
    exact (mul_le_mul' bytes asked).trans flushed_mul_flushed
  exact (mul_le_mul' (kstar_le_flushed round) bytes).trans flushed_mul_flushed

end Transfer

/-! ## What one step passes -/

namespace Machine

/-- The word that the next step writes, if that step executes an output and returns no fault. -/
def sent? (machine : Machine) : Option Word :=
  match machine.upcoming, machine.step.1 with
  | .ok (.output val), .ok .running => some (machine.word val)
  | _, _ => none

/-- The words that a number of steps write, in order. -/
def sent (machine : Machine) (count : Nat) : List Word :=
  (List.range count).filterMap fun earlier => (machine.stepped earlier).sent?

theorem sent_succ (machine : Machine) (count : Nat) :
    machine.sent (count + 1) = machine.sent count ++ (machine.stepped count).sent?.toList := by
  rw [sent, List.range_succ, List.filterMap_append, sent, List.filterMap_cons, List.filterMap_nil]
  cases (machine.stepped count).sent? <;> rfl

/-- What can pass in a step, and what else tells of it. -/
inductive Passes (machine : Machine) : List Transfer → Prop where
  | nothing (unsent : machine.sent? = none)
      (inputs : machine.step.2.profile.count .input = machine.profile.count .input) :
      Passes machine []
  | byte {word : Word} (sent : machine.sent? = some word)
      (inputs : machine.step.2.profile.count .input = machine.profile.count .input) :
      Passes machine [.byte word.toUInt8]
  | reads (number : Nat) (unsent : machine.sent? = none)
      (inputs : machine.step.2.profile.count .input = machine.profile.count .input + 1) :
      Passes machine (.flush :: List.replicate number .read)

section Step

variable {machine : Machine} {instruction : Instruction}

theorem sent?_of_stop (stops : machine.step.1 ≠ .ok .running) : machine.sent? = none := by
  rw [sent?]
  split
  · next continues => exact absurd continues stops
  · rfl

theorem sent?_of_opcode (upcoming : machine.upcoming = .ok instruction)
    (other : instruction.opcode ≠ .output) : machine.sent? = none := by
  rw [sent?, upcoming]
  split
  · next val same _ =>
      cases same
      exact absurd rfl other
  · rfl

theorem passes_nothing (unsent : machine.sent? = none)
    (channels : machine.step.2.channels = machine.channels)
    (inputs : machine.step.2.profile.count .input = machine.profile.count .input) :
    ∃ transfers, machine.Passes transfers ∧
      machine.step.2.channels.transcript.toList =
        machine.channels.transcript.toList ++ transfers :=
  ⟨[], .nothing unsent inputs, by rw [channels, List.append_nil]⟩

theorem passes_output {val : Register} (running : machine.status = .running)
    (upcoming : machine.upcoming = .ok (.output val)) :
    ∃ transfers, machine.Passes transfers ∧
      machine.step.2.channels.transcript.toList =
        machine.channels.transcript.toList ++ transfers := by
  obtain ⟨left_alone, profile⟩ := step_of_upcoming running upcoming
  have inputs : machine.step.2.profile.count .input = machine.profile.count .input := by
    rw [profile, Profile.count_record, if_neg nofun]
  cases allowed : machine.config.outputPolicy.byte? (machine.word val) with
  | none =>
      have refused : (machine.enter (.output val)).execute (.output val) =
          (.error (.outputOutOfRange (machine.word val)), machine.enter (.output val)) :=
        output_of_none allowed
      have stops : machine.step.1 ≠ .ok .running := by
        rw [step_of_failed running upcoming refused]
        nofun
      exact passes_nothing (sent?_of_stop stops) (left_alone.trans (by rw [refused]; rfl)) inputs
  | some byte =>
      obtain ⟨-, rfl⟩ := OutputPolicy.byte?_eq_some_iff.mp allowed
      obtain ⟨channels, succeeds, fails⟩ := step_of_output running upcoming allowed
      obtain ⟨writes, accepted | ⟨error, refused⟩⟩ :=
        machine.channels.deliver_ways (machine.word val).toUInt8
      · have sent : machine.sent? = some (machine.word val) := by
          rw [sent?, upcoming, succeeds (congrArg Prod.fst accepted)]
        refine ⟨_, .byte sent inputs, ?_⟩
        rw [channels, accepted, Array.toList_push]
      · have stops : machine.step.1 ≠ .ok .running := by
          rw [fails error (congrArg Prod.fst refused)]
          nofun
        refine ⟨[], .nothing (sent?_of_stop stops) inputs, ?_⟩
        rw [channels, refused, List.append_nil]

theorem passes_input {out : Register} (running : machine.status = .running)
    (upcoming : machine.upcoming = .ok (.input out)) :
    ∃ transfers, machine.Passes transfers ∧
      machine.step.2.channels.transcript.toList =
        machine.channels.transcript.toList ++ transfers := by
  obtain ⟨channels, profile⟩ := step_of_upcoming running upcoming
  have inputs : machine.step.2.profile.count .input = machine.profile.count .input + 1 := by
    rw [profile, Profile.count_record]
    exact if_pos rfl
  have unsent := sent?_of_opcode upcoming nofun
  have received : ((machine.enter (.input out)).execute (.input out)).2.channels =
      machine.channels.receive.2 := input_channels (machine.enter (.input out)) out
  rw [channels, received]
  obtain ⟨flushes, ⟨error, failed⟩ | answered⟩ := machine.channels.receive_ways
  · refine ⟨_, .reads 0 unsent inputs, ?_⟩
    rw [failed, Array.toList_push]
    rfl
  · refine ⟨_, .reads (Delivery.requests machine.channels.input) unsent inputs, ?_⟩
    rw [answered, Array.toList_append, Array.toList_push, Array.toList_replicate, List.append_assoc]
    rfl

/-- A step passes a byte, or a flush with the reads after it, or nothing. -/
theorem step_passes (machine : Machine) :
    ∃ transfers, machine.Passes transfers ∧
      machine.step.2.channels.transcript.toList =
        machine.channels.transcript.toList ++ transfers := by
  by_cases running : machine.status = .running
  · cases upcoming : machine.upcoming with
    | error fault =>
        have refused := step_of_refused running upcoming
        have stops : machine.step.1 ≠ .ok .running := by
          rw [refused]
          nofun
        exact passes_nothing (sent?_of_stop stops) (by rw [refused]; rfl) (by rw [refused]; rfl)
    | ok instruction =>
        by_cases writes : instruction.opcode = .output
        · cases instruction <;> cases writes
          exact passes_output running upcoming
        · by_cases reads : instruction.opcode = .input
          · cases instruction <;> cases reads
            exact passes_input running upcoming
          · obtain ⟨channels, profile⟩ := step_of_upcoming running upcoming
            have same := (hasEffect_execute (machine.enter instruction) instruction).channels
              writes reads
            apply passes_nothing (sent?_of_opcode upcoming writes) (channels.trans same)
            rw [profile, Profile.count_record, if_neg (Ne.symm reads)]
  · have stopped := step_of_stopped running
    have stops : machine.step.1 ≠ .ok .running := by
      rw [stopped]
      exact fun same => running (Except.ok.inj same)
    exact passes_nothing (sent?_of_stop stops) (by rw [stopped]) (by rw [stopped])

end Step

/-! ## What a run passes -/

/-- What has passed in a number of steps, as the machine tells of it. -/
structure Passed (machine : Machine) (count : Nat) (transfers : List Transfer) : Prop where
  transcript : (machine.stepped count).channels.transcript.toList =
    machine.channels.transcript.toList ++ transfers
  shape : transfers ∈ Transfer.paced
  inputs : (machine.stepped count).profile.count .input =
    machine.profile.count .input + transfers.count .flush
  bytes : transfers.filterMap Transfer.byte? = (machine.sent count).map UInt32.toUInt8

variable {machine : Machine} {count : Nat} {transfers more : List Transfer}

theorem Passed.step (passed : machine.Passed count transfers)
    (passes : (machine.stepped count).Passes more)
    (transcript : (machine.stepped count).step.2.channels.transcript.toList =
      (machine.stepped count).channels.transcript.toList ++ more) :
    machine.Passed (count + 1) (transfers ++ more) where
  transcript := by
    rw [stepped_succ, transcript, passed.transcript, List.append_assoc]
  shape := by
    cases passes with
    | nothing => exact (List.append_nil transfers).symm ▸ passed.shape
    | byte => exact Transfer.append_byte_mem_paced passed.shape _
    | reads number => exact Transfer.append_reads_mem_paced passed.shape number
  inputs := by
    rw [stepped_succ, List.count_append]
    cases passes with
    | nothing _ inputs => rw [inputs, passed.inputs, List.count_nil, Nat.add_zero]
    | byte _ inputs => rw [inputs, passed.inputs, List.count_singleton, if_neg nofun, Nat.add_zero]
    | reads number _ inputs =>
        rw [inputs, passed.inputs, List.count_cons_self, List.count_replicate]
        simp [Nat.add_assoc]
  bytes := by
    rw [List.filterMap_append, passed.bytes, sent_succ, List.map_append]
    cases passes with
    | nothing unsent => rw [unsent]; rfl
    | byte sent => rw [sent]; rfl
    | reads number unsent =>
        rw [unsent]
        simp [Transfer.byte?]

theorem exists_passed (machine : Machine) (count : Nat) :
    ∃ transfers, machine.Passed count transfers := by
  induction count with
  | zero => exact ⟨[], (List.append_nil _).symm, Transfer.nil_mem_paced, rfl, rfl⟩
  | succ count ih =>
      obtain ⟨transfers, passed⟩ := ih
      obtain ⟨more, passes, transcript⟩ := (machine.stepped count).step_passes
      exact ⟨transfers ++ more, passed.step passes transcript⟩

/-- What has passed when a run ends is what its steps passed and a last flush. -/
theorem run_passed {last : Machine} {ending : Ending} {budget : Nat}
    (ended : machine.run budget = some (ending, last)) :
    ∃ number transfers, machine.FirstStop number ∧ machine.Passed number transfers ∧
      last.channels.transcript.toList =
        machine.channels.transcript.toList ++ (transfers ++ [.flush]) ∧
      last.profile.count .input = machine.profile.count .input + transfers.count .flush := by
  obtain ⟨count, runs, stops, outcome⟩ := run_cases ended
  obtain ⟨transfers, passed⟩ := machine.exists_passed (count + 1)
  have finished : last =
      ((machine.stepped (count + 1)).finish ((machine.answer count).map fun _ => ())).2 := by
    rw [stepped_succ]
    exact congrArg Prod.snd outcome
  refine ⟨count + 1, transfers, ⟨count, rfl, runs, stops⟩, passed, ?_, ?_⟩
  · rw [finished, finish_transcript, passed.transcript, List.append_assoc]
  · rw [finished, finish_profile, passed.inputs]

end Machine

open Machine Transfer in
/-- What passes between a program and its devices. If the program cannot be loaded, nothing does.
Otherwise the transcript is a word of the language of bytes, flushes and the reads after a flush, so
that no byte is unflushed when something is read, and it ends with a flush, whatever ended the run.
There is one flush for each input instruction that was executed and one more, and the bytes are, in
order, the low bytes of the words that the output instructions of the run wrote. -/
theorem run_transcript {image : List Delivery} {channels : Channels} {config : Config}
    {budget : Nat} {outcome : Outcome} (ended : run image channels config budget = some outcome) :
    (∀ fault events, ofImage image channels config = (.error fault, events) →
      outcome.channels = channels) ∧
    ∀ machine events, ofImage image channels config = (.ok machine, events) →
      ∃ number ending last transfers,
        machine.FirstStop number ∧ machine.run budget = some (ending, last) ∧
        outcome = ⟨ending, last.channels, last.log⟩ ∧
        outcome.channels.transcript.toList = channels.transcript.toList ++ transfers ∧
        transfers ∈ (oneByte∗ * oneFlush * oneRead∗)∗ * oneByte∗ * oneFlush ∧
        (∀ older newer, transfers = older ++ .read :: newer →
          ∃ earlier reads, older = earlier ++ .flush :: List.replicate reads .read) ∧
        transfers.getLast? = some .flush ∧
        transfers.count .flush = last.profile.count .input + 1 ∧
        (transfers.filterMap byte?).map UInt8.toNat =
          (machine.sent number).map fun word => word.toNat % 256 := by
  constructor
  · intro fault events failed
    rw [run, failed] at ended
    cases ended
    rfl
  · intro machine events loaded
    rw [run, loaded] at ended
    obtain ⟨⟨ending, last⟩, finished, rfl⟩ := Option.map_eq_some_iff.mp ended
    obtain ⟨store, -, rfl⟩ := ofImage_eq_ok loaded
    obtain ⟨number, transfers, stops, passed, transcript, inputs⟩ := run_passed finished
    have shape : transfers ++ [.flush] ∈ paced * oneFlush :=
      Language.append_mem_mul passed.shape rfl
    have flushes : transfers ++ [.flush] ∈ flushed :=
      append_mem_flushed (paced_le_flushed passed.shape) (reads_mem_flushed 0)
    refine ⟨number, ending, last, transfers ++ [.flush], stops, finished, rfl, transcript, shape,
      mem_flushed_iff.mp flushes, List.getLast?_concat, ?_, ?_⟩
    · rw [inputs, List.count_append]
      simp
    · rw [List.filterMap_append, passed.bytes, List.filterMap_cons_none rfl, List.filterMap_nil,
        List.append_nil, List.map_map]
      exact List.map_congr_left fun word _ => UInt32.toNat_toUInt8 word

open Machine Transfer in
/-- A program that writes a byte, copies one that it gets at the second attempt, and then divides by
zero. -/
theorem run_transcript_fault :
    let image : List Delivery :=
      [.chunk [0xA0, 0, 0, 0, 0xB0, 0, 0, 1, 0xA0, 0, 0, 1, 0x50, 0, 0, 0]]
    let channels : Channels := { input := [.interrupted, .chunk [7]] }
    let transfers : List Transfer := [.byte 0, .flush, .read, .read, .byte 7, .flush]
    ∃ outcome, run image channels {} 4 = some outcome ∧
      outcome.ending = .failed .divideByZero ∧
      outcome.channels.transcript.toList = transfers ∧
      transfers ∈ (oneByte∗ * oneFlush * oneRead∗)∗ * oneByte∗ * oneFlush := by
  intro image channels transfers
  let machine : Machine :=
    { store := ⟨#[some #[0xA0000000, 0xB0000001, 0xA0000001, 0x50000000]], []⟩
      channels
      log := #[.store (.mapped .program 4), .loaded 4] }
  have loaded : ofImage image channels {} =
      (.ok machine, [.store (.mapped .program 4), .loaded 4]) := by decide +kernel
  obtain ⟨outcome, ended, seen⟩ : ∃ outcome, run image channels {} 4 = some outcome ∧
      (outcome.ending, outcome.channels.transcript.toList) =
        (.failed .divideByZero, transfers) := by
    rw [← Option.map_eq_some_iff]
    decide +kernel
  obtain ⟨ending, transcript⟩ := Prod.mk.inj seen
  obtain ⟨_, _, _, passed, -, -, -, from_start, shape, -⟩ :=
    (run_transcript ended).2 machine _ loaded
  have same : passed = transfers := from_start.symm.trans transcript
  exact ⟨outcome, ended, ending, transcript, same ▸ shape⟩

end UniversalMachine
