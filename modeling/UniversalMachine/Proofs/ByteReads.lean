import UniversalMachine.Proofs.DeviceFailure
import UniversalMachine.Proofs.InputStream

/-!
# Reading byte by byte

A request for a byte passes the output on, and then reads until a read is not interrupted. One
request after the other gets the flattened script of the input, in order, and ends of the input from
there on. A request whose flush fails reads nothing, so that the next one goes on where it would
have.
-/

namespace UniversalMachine

namespace Delivery

/-- One read of a single byte: the answer, unless the read is interrupted, and what the input has
left. -/
def readByte : List Delivery → Option ByteAnswer × List Delivery
  | [] => (some (.ok none), [])
  | .chunk [] :: rest => (some (.ok none), rest)
  | .chunk [byte] :: rest => (some (.ok (some byte)), rest)
  | .chunk (byte :: bytes) :: rest => (some (.ok (some byte)), .chunk bytes :: rest)
  | .endOfInput :: rest => (some (.ok none), rest)
  | .interrupted :: rest => (none, rest)
  | .failure text :: rest => (some (.error (.device text)), rest)

/-- A number of reads of which the last, and no other, is answered. -/
inductive Reads : List Delivery → Nat → ByteAnswer → List Delivery → Prop where
  | answered {script rest : List Delivery} {answer : ByteAnswer}
      (answered : readByte script = (some answer, rest)) : Reads script 1 answer rest
  | again {script next rest : List Delivery} {reads : Nat} {answer : ByteAnswer}
      (interrupted : readByte script = (none, next)) (later : Reads next reads answer rest) :
      Reads script (reads + 1) answer rest

/-- A request for a byte comes to an end, with the last of its reads. -/
theorem reads_takeByte (script : List Delivery) :
    Reads script (requests script) (takeByte script).1 (takeByte script).2 := by
  induction script with
  | nil => exact .answered rfl
  | cons delivery rest ih =>
      cases delivery with
      | chunk bytes =>
          match bytes with
          | [] | [_] | _ :: _ :: _ => exact .answered rfl
      | interrupted => exact .again rfl ih
      | endOfInput | failure text => exact .answered rfl

/-- Each read but the last uses up an interruption. -/
theorem requests_le (script : List Delivery) : requests script ≤ script.length + 1 := by
  induction script with
  | nil => exact Nat.le_refl 1
  | cons delivery rest ih =>
      cases delivery with
      | interrupted => exact Nat.succ_le_succ ih
      | chunk bytes | endOfInput | failure text => exact Nat.le_add_left ..

end Delivery

namespace Channels

open Delivery (flatten)

variable {channels after : Channels}

/-! ## One request -/

theorem flush_frame (channels : Channels) :
    channels.flush.2 = { channels with
      flushes := channels.flushes.tail
      transcript := channels.transcript.push .flush } := by
  obtain ⟨input, writes, flushes, transcript⟩ := channels
  rcases flushes with _ | ⟨_ | text, rest⟩ <;> rfl

theorem flush_answer (channels : Channels) :
    channels.flush.1 =
      match channels.flushes.headD .done with
      | .done => .ok ()
      | .failure text => .error (.device text) := by
  obtain ⟨input, writes, flushes, transcript⟩ := channels
  rcases flushes with _ | ⟨_ | text, rest⟩ <;> rfl

theorem receive_of_flushed (flushed : channels.flush.1 = .ok ()) :
    channels.receive = ((Delivery.takeByte channels.input).1, { channels with
      input := (Delivery.takeByte channels.input).2
      flushes := channels.flushes.tail
      transcript := channels.transcript.push .flush ++
        Array.replicate (Delivery.requests channels.input) Transfer.read }) := by
  have whole : channels.flush = (.ok (), channels.flush.2) := Prod.ext flushed rfl
  rw [receive, whole, flush_frame]

theorem receive_of_unflushed {error : ChannelError} (failed : channels.flush.1 = .error error) :
    channels.receive = (.error error, { channels with
      flushes := channels.flushes.tail
      transcript := channels.transcript.push .flush }) := by
  have whole : channels.flush = (.error error, channels.flush.2) := Prod.ext failed rfl
  rw [receive, whole, flush_frame]

/-- Whether the flush succeeds or not, it is asked for once. -/
theorem flushes_receive (channels : Channels) :
    channels.receive.2.flushes = channels.flushes.tail := by
  cases flushed : channels.flush.1 with
  | ok done => rw [receive_of_flushed flushed]
  | error error => rw [receive_of_unflushed flushed]

/-! ## One request after the other -/

/-- The channels after a number of requests for a byte. -/
def requested (channels : Channels) : Nat → Channels
  | 0 => channels
  | count + 1 => (channels.requested count).receive.2

/-- What a request after a number of others returns: the word that stands for the byte or the end,
or an error. -/
def wordAfter (channels : Channels) (count : Nat) : Except ChannelError Word :=
  (channels.requested count).receive.1.map inputWord

/-- How many of the first requests got their flush, and so something from the input. -/
def served (channels : Channels) (count : Nat) : Nat :=
  (List.range count).countP fun earlier => channels.flushes.getD earlier .done = .done

theorem served_succ (channels : Channels) (count : Nat) :
    channels.served (count + 1) =
      channels.served count + if channels.flushes.getD count .done = .done then 1 else 0 := by
  rw [served, List.range_succ, List.countP_append, List.countP_singleton, served]
  simp only [decide_eq_true_eq]

theorem served_of_done (done : ∀ reply ∈ channels.flushes, reply = .done) (count : Nat) :
    channels.flushes.getD count .done = .done ∧ channels.served count = count := by
  have each (i : Nat) : channels.flushes.getD i .done = .done := by
    rw [List.getD_eq_getElem?_getD]
    cases found : channels.flushes[i]? with
    | none => rfl
    | some reply => exact done reply (List.mem_of_getElem? found)
  refine ⟨each count, ?_⟩
  induction count with
  | zero => rfl
  | succ count ih => rw [served_succ, ih, if_pos (each count)]

theorem flushes_requested (channels : Channels) (count : Nat) :
    (channels.requested count).flushes = channels.flushes.drop count := by
  induction count with
  | zero => rfl
  | succ count ih => rw [requested, flushes_receive, ih, List.tail_drop]

theorem flush_requested (channels : Channels) (count : Nat) :
    (channels.requested count).flush.1 =
      match channels.flushes.getD count .done with
      | .done => .ok ()
      | .failure text => .error (.device text) := by
  rw [flush_answer, flushes_requested, List.headD_eq_head?_getD, List.head?_drop,
    List.getD_eq_getElem?_getD]

/-- The requests that got their flush have each taken an answer off the flattened script. -/
theorem flatten_requested (channels : Channels) (count : Nat) :
    flatten (channels.requested count).input =
      (flatten channels.input).drop (channels.served count) := by
  induction count with
  | zero => rfl
  | succ count ih =>
      have flushed := channels.flush_requested count
      rw [requested, served_succ]
      cases reply : channels.flushes.getD count .done with
      | done =>
          rw [reply] at flushed
          rw [receive_of_flushed flushed, (Delivery.takeByte_flatten _).2, ih, List.tail_drop,
            if_pos rfl]
      | failure text =>
          rw [reply] at flushed
          rw [receive_of_unflushed flushed, ih, if_neg nofun, Nat.add_zero]

theorem wordAfter_eq (channels : Channels) (count : Nat) :
    channels.wordAfter count =
      match channels.flushes.getD count .done with
      | .done => ((flatten channels.input).getD (channels.served count) (.ok none)).map inputWord
      | .failure text => .error (.device text) := by
  have flushed := channels.flush_requested count
  rw [wordAfter]
  cases reply : channels.flushes.getD count .done with
  | done =>
      rw [reply] at flushed
      rw [receive_of_flushed flushed, (Delivery.takeByte_flatten _).1, flatten_requested,
        List.headD_eq_head?_getD, List.head?_drop, List.getD_eq_getElem?_getD]
  | failure text =>
      rw [reply] at flushed
      rw [receive_of_unflushed flushed]
      rfl

/-- Reading byte by byte flattens the input exactly. Where every flush succeeds, the requests return
the answers of the flattened script one after the other, a byte as its value and the end as the
greatest word, and ends for ever after. A flush that fails only makes its own request fail: the
requests that got their flush return the same answers. Each request asks for one flush. If that
fails, it returns the error and has read nothing; otherwise it ends with the first read that is not
interrupted, of which there are no more than one for each entry of the script and one for its
end. -/
theorem reads_flatten_input (channels : Channels) (count : Nat) :
    let now := channels.requested count
    ((∀ reply ∈ channels.flushes, reply = .done) →
      channels.wordAfter count = ((flatten channels.input).getD count (.ok none)).map inputWord) ∧
    (∀ byte, (inputWord (some byte)).toNat = byte.toNat) ∧ inputWord none = 0xFFFFFFFF ∧
    (channels.wordAfter count =
      match channels.flushes.getD count .done with
      | .done => ((flatten channels.input).getD (channels.served count) (.ok none)).map inputWord
      | .failure text => .error (.device text)) ∧
    (∀ error, now.flush.1 = .error error →
      now.receive = (.error error, { now with
        flushes := now.flushes.tail
        transcript := now.transcript.push .flush })) ∧
    (now.flush.1 = .ok () →
      ∃ reads answer rest, Delivery.Reads now.input reads answer rest ∧
        reads ≤ now.input.length + 1 ∧
        now.receive = (answer, { now with
          input := rest
          flushes := now.flushes.tail
          transcript := now.transcript.push .flush ++ Array.replicate reads Transfer.read })) := by
  intro now
  refine ⟨?_, fun byte => UInt8.toNat_toUInt32 byte, rfl, channels.wordAfter_eq count, ?_, ?_⟩
  · intro done
    obtain ⟨reply, all_served⟩ := served_of_done done count
    rw [wordAfter_eq, reply, all_served]
  · exact fun error => receive_of_unflushed
  · intro flushed
    exact ⟨_, _, _, Delivery.reads_takeByte now.input, Delivery.requests_le now.input,
      receive_of_flushed flushed⟩

/-- A byte after an interruption, an end in the middle, a failure, and ends after that. -/
theorem reads_flatten_input_scripted :
    let channels : Channels :=
      { input := [.interrupted, .chunk [7], .chunk [], .interrupted, .failure "gone"]
        flushes := [.done] }
    (∀ reply ∈ channels.flushes, reply = .done) ∧
    channels.wordAfter 0 = .ok 7 ∧ channels.wordAfter 1 = .ok 0xFFFFFFFF ∧
    channels.wordAfter 2 = .error (.device "gone") ∧
    ∀ later, channels.wordAfter (later + 3) = .ok 0xFFFFFFFF := by
  intro channels
  have done : ∀ reply ∈ channels.flushes, reply = .done := by decide
  have in_turn (count : Nat) := (channels.reads_flatten_input count).1 done
  exact ⟨done, in_turn 0, in_turn 1, in_turn 2, fun later => in_turn (later + 3)⟩

end Channels

end UniversalMachine
