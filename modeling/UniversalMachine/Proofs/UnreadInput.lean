import UniversalMachine.Proofs.Arrival
import UniversalMachine.Proofs.InputStream

/-!
# Input that is not read yet

A machine asks its input for one byte when it executes an instruction that reads, and at no other
time. What the input holds after the bytes that were read has no part in anything that happened
before. It can be replaced by other bytes, by the end or by a failure, and all of it is still there
to be read.
-/

namespace UniversalMachine

namespace Delivery

/-- The answers that give these bytes. -/
def giving (bytes : List UInt8) : List ByteAnswer :=
  bytes.map fun byte => .ok (some byte)

theorem giving_append (bytes more : List UInt8) :
    giving (bytes ++ more) = giving bytes ++ giving more :=
  List.map_append

/-- A byte that is taken is the first answer of the script. -/
theorem flatten_of_takeByte {script : List Delivery} {byte : UInt8}
    (taken : (takeByte script).1 = .ok (some byte)) :
    flatten script = .ok (some byte) :: flatten (takeByte script).2 := by
  obtain ⟨head, tail⟩ := takeByte_flatten script
  rw [taken] at head
  rw [tail]
  cases answers : flatten script with
  | nil =>
      rw [answers] at head
      cases head
  | cons answer rest =>
      rw [answers, List.headD_cons] at head
      rw [head, List.tail_cons]

end Delivery

namespace Channels

/-- The channels are the same but for their input and for reads that were interrupted, and the
second ones have this input still to come. -/
structure Resumes (rest : List Delivery.ByteAnswer) (left right : Channels) : Prop where
  input : Delivery.flatten right.input = rest
  writes : right.writes = left.writes
  flushes : right.flushes = left.flushes
  passed : Transfer.completed right.transcript.toList = Transfer.completed left.transcript.toList

variable {rest : List Delivery.ByteAnswer} {left right : Channels} {byte : UInt8}

theorem Resumes.deliver (resumes : Resumes rest left right) (byte : UInt8) :
    (right.deliver byte).1 = (left.deliver byte).1 ∧
      Resumes rest (left.deliver byte).2 (right.deliver byte).2 := by
  rw [Channels.deliver, Channels.deliver, resumes.writes]
  generalize WriteReply.offer left.writes = reply
  obtain ⟨answer, writes⟩ := reply
  cases answer with
  | error error => exact ⟨rfl, resumes.input, rfl, resumes.flushes, resumes.passed⟩
  | ok done =>
      refine ⟨rfl, resumes.input, rfl, resumes.flushes, ?_⟩
      rw [Array.toList_push, Array.toList_push, Transfer.completed_concat (by simp),
        Transfer.completed_concat (by simp), resumes.passed]

/-- A byte that is received stands first in the input. -/
theorem flatten_of_receive (received : left.receive.1 = .ok (some byte)) :
    Delivery.flatten left.input = .ok (some byte) :: Delivery.flatten left.receive.2.input := by
  have answered : left.receive = (.ok (some byte), left.receive.2) := Prod.ext received rfl
  obtain ⟨flushes, taken, after⟩ := receive_cases answered
  have input : left.receive.2.input = (Delivery.takeByte left.input).2 :=
    congrArg Channels.input after
  rw [input]
  exact Delivery.flatten_of_takeByte taken

/-- If both have the byte, both give it. -/
theorem Resumes.receive (resumes : Resumes (.ok (some byte) :: rest) left right)
    (received : left.receive.1 = .ok (some byte)) :
    right.receive.1 = left.receive.1 ∧ Resumes rest left.receive.2 right.receive.2 := by
  obtain ⟨head, tail⟩ := Delivery.takeByte_flatten right.input
  rw [resumes.input] at head tail
  obtain ⟨retries, reads⟩ := Delivery.exists_requests left.input
  obtain ⟨more, reads_too⟩ := Delivery.exists_requests right.input
  unfold Channels.receive Channels.flush at received ⊢
  rw [resumes.flushes]
  generalize FlushReply.request left.flushes = reply at received ⊢
  obtain ⟨answer, flushes⟩ := reply
  cases answer with
  | error error => cases received
  | ok done =>
      refine ⟨head.trans received.symm, tail, resumes.writes, rfl, ?_⟩
      simp only [Array.toList_append, Array.toList_push, Array.toList_replicate, reads, reads_too,
        List.append_assoc, List.cons_append, List.nil_append, Transfer.completed_receive,
        resumes.passed]

theorem Resumes.output (resumes : Resumes rest left right) : right.output = left.output := by
  rw [Channels.output, Channels.output, ← Transfer.filterMap_completed, resumes.passed,
    Transfer.filterMap_completed]

end Channels

namespace Machine

/-! ## One step -/

/-- The next step executes an instruction that reads from the input. -/
def Inputs (machine : Machine) : Prop :=
  machine.status = .running ∧ ∃ out, machine.upcoming = .ok (.input out)

variable {machine other : Machine} {rest : List Delivery.ByteAnswer} {byte : UInt8}

theorem opcode_ne_input (no_input : ¬ machine.Inputs) (running : machine.status = .running)
    {instruction : Instruction} (upcoming : machine.upcoming = .ok instruction) :
    instruction.opcode ≠ .input := by
  intro reads
  cases instruction <;> cases reads
  exact no_input ⟨running, _, upcoming⟩

theorem step_of_input {out : Register} (running : machine.status = .running)
    (upcoming : machine.upcoming = .ok (.input out)) :
    machine.step.2.channels = machine.channels.receive.2 ∧
      machine.step.2.profile.count .input = machine.profile.count .input + 1 := by
  obtain ⟨channels, profile⟩ := step_of_upcoming running upcoming
  refine ⟨channels.trans (input_channels _ out), ?_⟩
  rw [profile, Profile.count_record]
  exact if_pos rfl

theorem step_of_no_input (no_input : ¬ machine.Inputs) :
    machine.step.2.channels.input = machine.channels.input ∧
      machine.step.2.profile.count .input = machine.profile.count .input := by
  by_cases running : machine.status = .running
  · cases upcoming : machine.upcoming with
    | error fault =>
        rw [step_of_refused running upcoming]
        exact ⟨rfl, rfl⟩
    | ok instruction =>
        have elsewhere := opcode_ne_input no_input running upcoming
        obtain ⟨channels, profile⟩ := step_of_upcoming running upcoming
        rw [channels, profile, Profile.count_record, if_neg elsewhere.symm]
        exact ⟨(hasEffect_execute _ _).input elsewhere, rfl⟩
  · rw [step_of_stopped running]
    exact ⟨rfl, rfl⟩

theorem step_resumes (no_input : ¬ machine.Inputs)
    (related : UpToChannels (Channels.Resumes rest) machine other) :
    Together (UpToChannels (Channels.Resumes rest)) machine.step other.step := by
  obtain ⟨channels, rfl, resumes⟩ := related.cases
  refine (coupling_upToChannels _).step related (fun _ => rfl) ?_
  intro running instruction upcoming
  have entered : Channels.Resumes rest (machine.enter instruction).channels channels := resumes
  exact execute_together entered entered.deliver (opcode_ne_input no_input running upcoming)

/-- A byte that is read is the same if it comes first in both inputs. -/
theorem step_resumes_input {out : Register} (running : machine.status = .running)
    (upcoming : machine.upcoming = .ok (.input out))
    (received : machine.channels.receive.1 = .ok (some byte))
    (related : UpToChannels (Channels.Resumes (.ok (some byte) :: rest)) machine other) :
    Together (UpToChannels (Channels.Resumes rest)) machine.step other.step := by
  obtain ⟨channels, rfl, resumes⟩ := related.cases
  let entered := machine.enter (.input out)
  obtain ⟨answer, kept⟩ : channels.receive.1 = entered.channels.receive.1 ∧
      Channels.Resumes rest entered.channels.receive.2 channels.receive.2 :=
    resumes.receive received
  exact (coupling_upToChannels _).step_of_upcoming running running upcoming upcoming
    (input_together answer kept out)

/-- In a step the machine reads the bytes that come first, and any other machine whose input starts
with them reads the same. -/
theorem step_reads
    (given : machine.Inputs → ∃ byte, machine.channels.receive.1 = .ok (some byte)) :
    ∃ bytes,
      Delivery.flatten machine.channels.input =
        Delivery.giving bytes ++ Delivery.flatten machine.step.2.channels.input ∧
      machine.step.2.profile.count .input = machine.profile.count .input + bytes.length ∧
      ∀ rest other,
        UpToChannels (Channels.Resumes (Delivery.giving bytes ++ rest)) machine other →
        Together (UpToChannels (Channels.Resumes rest)) machine.step other.step := by
  by_cases inputs : machine.Inputs
  · obtain ⟨byte, received⟩ := given inputs
    obtain ⟨running, out, upcoming⟩ := inputs
    obtain ⟨channels, number⟩ := step_of_input running upcoming
    refine ⟨[byte], ?_, number, fun rest other => step_resumes_input running upcoming received⟩
    rw [channels]
    exact Channels.flatten_of_receive received
  · obtain ⟨input, number⟩ := step_of_no_input inputs
    refine ⟨[], ?_, number, fun rest other => step_resumes inputs⟩
    rw [input]
    rfl

/-! ## Many steps -/

/-- What the steps read one after the other is what they read altogether. -/
theorem stepped_reads {count : Nat}
    (given : ∀ earlier < count, (machine.stepped earlier).Inputs →
      ∃ byte, (machine.stepped earlier).channels.receive.1 = .ok (some byte)) :
    ∃ bytes,
      Delivery.flatten machine.channels.input =
        Delivery.giving bytes ++ Delivery.flatten (machine.stepped count).channels.input ∧
      (machine.stepped count).profile.count .input =
        machine.profile.count .input + bytes.length ∧
      ∀ rest other,
        UpToChannels (Channels.Resumes (Delivery.giving bytes ++ rest)) machine other →
        (∀ earlier < count, other.answer earlier = machine.answer earlier ∧
          ∃ later, UpToChannels (Channels.Resumes later) (machine.stepped earlier)
            (other.stepped earlier)) ∧
        UpToChannels (Channels.Resumes rest) (machine.stepped count) (other.stepped count) := by
  induction count with
  | zero =>
      refine ⟨[], rfl, rfl, fun rest other related => ⟨?_, related⟩⟩
      exact fun earlier before => absurd before (Nat.not_lt_zero earlier)
  | succ count ih =>
      obtain ⟨bytes, input, number, together⟩ :=
        ih fun earlier before => given earlier (Nat.lt_succ_of_lt before)
      obtain ⟨more, input_then, number_then, together_then⟩ :=
        step_reads (given count (Nat.lt_succ_self count))
      refine ⟨bytes ++ more, ?_, ?_, ?_⟩
      · rw [stepped_succ, input, input_then, Delivery.giving_append, List.append_assoc]
      · rw [stepped_succ, number_then, number, List.length_append, Nat.add_assoc]
      · intro rest other related
        -- For the earlier steps what follows begins with the bytes of the last one.
        rw [Delivery.giving_append, List.append_assoc] at related
        obtain ⟨until_then, kept⟩ := together _ other related
        obtain ⟨answer, kept_then⟩ := together_then rest _ kept
        rw [stepped_succ, stepped_succ]
        refine ⟨?_, kept_then⟩
        intro earlier before
        rcases Nat.lt_succ_iff_lt_or_eq.mp before with before | rfl
        · exact until_then earlier before
        · exact ⟨answer, _, kept⟩

/-- The machine does not read ahead in its input. As long as every instruction that reads is given a
byte, the bytes that were given are as many as the instructions that read. Any other input that
starts with them, whatever follows, leaves each answer as it is, and the machine after each step but
for what it can still read and for reads that were interrupted. What is left of that input is what
followed the bytes. -/
theorem input_not_read_ahead {count : Nat}
    (given : ∀ earlier < count, (machine.stepped earlier).Inputs →
      ∃ byte, (machine.stepped earlier).channels.receive.1 = .ok (some byte)) :
    ∃ bytes,
      Delivery.flatten machine.channels.input =
        Delivery.giving bytes ++ Delivery.flatten (machine.stepped count).channels.input ∧
      (machine.stepped count).profile.count .input =
        machine.profile.count .input + bytes.length ∧
      ∀ script rest, Delivery.flatten script = Delivery.giving bytes ++ rest →
        let other := machine.withChannels { machine.channels with input := script }
        (∀ earlier < count, other.answer earlier = machine.answer earlier) ∧
        (∀ reached ≤ count,
          let now := machine.stepped reached
          let other_now := other.stepped reached
          other_now = now.withChannels other_now.channels ∧
          other_now.channels.writes = now.channels.writes ∧
          other_now.channels.flushes = now.channels.flushes ∧
          other_now.channels.output = now.channels.output ∧
          Transfer.completed other_now.channels.transcript.toList =
            Transfer.completed now.channels.transcript.toList) ∧
        Delivery.flatten (other.stepped count).channels.input = rest := by
  obtain ⟨bytes, input, number, together⟩ := stepped_reads given
  refine ⟨bytes, input, number, ?_⟩
  intro script rest starts other
  have related : UpToChannels (Channels.Resumes (Delivery.giving bytes ++ rest)) machine other :=
    ⟨rfl, starts, rfl, rfl, rfl⟩
  obtain ⟨until_then, same, resumes⟩ := together rest other related
  refine ⟨fun earlier before => (until_then earlier before).1, ?_, resumes.input⟩
  intro reached le now other_now
  obtain ⟨later, same, resumes⟩ : ∃ later, UpToChannels (Channels.Resumes later) now other_now := by
    rcases Nat.lt_or_eq_of_le le with before | rfl
    · exact (until_then reached before).2
    · exact ⟨rest, same, resumes⟩
  exact ⟨same, resumes.writes, resumes.flushes, resumes.output, resumes.passed⟩

/-- A program that copies two bytes. The input can fail after them. -/
theorem input_not_read_ahead_failing :
    let program : Segment := #[0xB0000000, 0xA0000000, 0xB0000001, 0xA0000001]
    let machine : Machine :=
      { store := ⟨#[some program], []⟩
        channels := { input := [.chunk [65, 66, 67]] }
        config := {} }
    let script : List Delivery := [.chunk [65], .interrupted, .chunk [66], .failure "gone"]
    let other := machine.withChannels { machine.channels with input := script }
    other.stepped 4 = (machine.stepped 4).withChannels (other.stepped 4).channels ∧
    (other.stepped 4).channels.output = (machine.stepped 4).channels.output ∧
    (machine.stepped 4).channels.output = [65, 66] ∧
    Delivery.flatten (other.stepped 4).channels.input = [.error (.device "gone")] := by
  intro program machine script other
  have given : ∀ earlier < 4, ∃ byte ∈ [65, 66, 67],
      (machine.stepped earlier).channels.receive.1 = .ok (some byte) := by
    decide +kernel
  obtain ⟨bytes, input, -, every⟩ := @input_not_read_ahead machine 4 fun earlier before _ =>
    (given earlier before).imp fun _ both => both.2
  have left : Delivery.flatten (machine.stepped 4).channels.input = Delivery.giving [67] := by
    decide +kernel
  have both : Delivery.giving bytes = Delivery.giving [65, 66] := by
    rw [left] at input
    exact List.append_cancel_right input.symm
  obtain ⟨-, alike, rest⟩ := every script [.error (.device "gone")] (by rw [both]; rfl)
  obtain ⟨same, -, -, output, -⟩ := alike 4 (Nat.le_refl 4)
  exact ⟨same, output, by decide +kernel, rest⟩

end Machine

end UniversalMachine
