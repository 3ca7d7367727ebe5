import UniversalMachine.Channel

/-!
# When a device fails

A request fails with the first answer that is not an interruption, if that answer is a failure.
Then no byte has passed: the output has accepted none, and the input still has all it had.
-/

namespace UniversalMachine

namespace Delivery

/-- A read fails if a failure comes before any other answer, interruptions aside. -/
theorem takeByte_eq_error_iff {script rest : List Delivery} {error : ChannelError} :
    takeByte script = (.error error, rest) ↔
      ∃ interruptions text, error = .device text ∧
        script = List.replicate interruptions .interrupted ++ .failure text :: rest := by
  constructor
  · intro failed
    induction script with
    | nil => simp [takeByte] at failed
    | cons delivery script ih =>
        cases delivery with
        | chunk bytes =>
            rcases bytes with _ | ⟨byte, _ | ⟨next, bytes⟩⟩ <;> simp [takeByte] at failed
        | endOfInput => simp [takeByte] at failed
        | interrupted =>
            obtain ⟨interruptions, text, device, same⟩ := ih failed
            refine ⟨interruptions + 1, text, device, ?_⟩
            rw [List.replicate_succ, List.cons_append, same]
        | failure text =>
            obtain ⟨device, rfl⟩ := Prod.mk.inj failed
            exact ⟨0, text, (Except.error.inj device).symm, rfl⟩
  · rintro ⟨interruptions, text, rfl, rfl⟩
    induction interruptions with
    | zero => rfl
    | succ interruptions ih => exact ih

/-- The bytes of a delivery. -/
def bytes : Delivery → List UInt8
  | .chunk bytes => bytes
  | .endOfInput | .interrupted | .failure _ => []

/-- The bytes that a script still has to deliver. -/
def data (script : List Delivery) : List UInt8 :=
  script.flatMap bytes

theorem data_interruptions (interruptions : Nat) (script : List Delivery) :
    data (List.replicate interruptions .interrupted ++ script) = data script := by
  rw [data, List.flatMap_append, List.flatMap_replicate]
  simp [bytes, data]

/-- A read that fails takes no byte. -/
theorem data_of_failed {script rest : List Delivery} {error : ChannelError}
    (failed : takeByte script = (.error error, rest)) : data rest = data script := by
  obtain ⟨interruptions, text, -, rfl⟩ := takeByte_eq_error_iff.mp failed
  rw [data_interruptions]
  rfl

end Delivery

/-- What an answer to an offered byte fails with. -/
def WriteReply.error? : WriteReply → Option ChannelError
  | .nothing => some .nothingAccepted
  | .failure text => some (.device text)
  | .accepted | .interrupted => none

theorem WriteReply.offer_eq_error_iff {script rest : List WriteReply} {error : ChannelError} :
    offer script = (.error error, rest) ↔
      ∃ interruptions reply, reply.error? = some error ∧
        script = List.replicate interruptions .interrupted ++ reply :: rest := by
  constructor
  · intro failed
    induction script with
    | nil => simp [offer] at failed
    | cons reply script ih =>
        cases reply with
        | accepted => simp [offer] at failed
        | interrupted =>
            obtain ⟨interruptions, reply, fails, same⟩ := ih failed
            refine ⟨interruptions + 1, reply, fails, ?_⟩
            rw [List.replicate_succ, List.cons_append, same]
        | nothing =>
            cases failed
            exact ⟨0, .nothing, rfl, rfl⟩
        | failure text =>
            cases failed
            exact ⟨0, .failure text, rfl, rfl⟩
  · rintro ⟨interruptions, reply, fails, rfl⟩
    induction interruptions with
    | zero =>
        cases reply with
        | accepted | interrupted => cases fails
        | nothing | failure text =>
            cases fails
            rfl
    | succ interruptions ih => exact ih

theorem FlushReply.request_eq_error_iff {script rest : List FlushReply} {error : ChannelError} :
    request script = (.error error, rest) ↔
      ∃ text, error = .device text ∧ script = .failure text :: rest := by
  cases script with
  | nil => simp [request]
  | cons reply script =>
      cases reply with
      | done => simp [request]
      | failure text =>
          constructor
          · intro failed
            cases failed
            exact ⟨text, rfl, rfl⟩
          · rintro ⟨_, rfl, same⟩
            cases same
            rfl

namespace Channels

variable {channels after : Channels} {error : ChannelError} {byte : UInt8}

/-- The next byte that is written is refused. -/
def WriteFails (channels : Channels) (error : ChannelError) : Prop :=
  ∃ rest interruptions reply, WriteReply.error? reply = some error ∧
    channels.writes = List.replicate interruptions .interrupted ++ reply :: rest

/-- The next flush fails. -/
def FlushFails (channels : Channels) (error : ChannelError) : Prop :=
  ∃ rest text, error = .device text ∧ channels.flushes = .failure text :: rest

/-- The next read fails, other than by an interruption. -/
def ReadFails (channels : Channels) (error : ChannelError) : Prop :=
  ∃ rest interruptions text, error = .device text ∧
    channels.input = List.replicate interruptions .interrupted ++ .failure text :: rest

theorem writeFails_iff :
    channels.WriteFails error ↔ (WriteReply.offer channels.writes).1 = .error error := by
  simp only [WriteFails, ← WriteReply.offer_eq_error_iff, Prod.ext_iff, exists_and_left,
    exists_eq', and_true]

theorem flushFails_iff :
    channels.FlushFails error ↔ (FlushReply.request channels.flushes).1 = .error error := by
  simp only [FlushFails, ← FlushReply.request_eq_error_iff, Prod.ext_iff, exists_and_left,
    exists_eq', and_true]

theorem readFails_iff :
    channels.ReadFails error ↔ (Delivery.takeByte channels.input).1 = .error error := by
  simp only [ReadFails, ← Delivery.takeByte_eq_error_iff, Prod.ext_iff, exists_and_left,
    exists_eq', and_true]

theorem deliver_eq_error_iff :
    (channels.deliver byte).1 = .error error ↔ channels.WriteFails error := by
  rw [writeFails_iff, deliver]
  generalize WriteReply.offer channels.writes = reply
  obtain ⟨offered, writes⟩ := reply
  cases offered <;> simp

/-- A byte is read after a flush, and not at all if the flush fails. -/
theorem receive_eq_error_iff :
    channels.receive.1 = .error error ↔
      channels.FlushFails error ∨
        (∀ failure, ¬ channels.FlushFails failure) ∧ channels.ReadFails error := by
  simp only [flushFails_iff, readFails_iff, receive, flush]
  generalize FlushReply.request channels.flushes = reply
  obtain ⟨flushed, flushes⟩ := reply
  cases flushed <;> simp

/-- A write that fails passes nothing on. -/
theorem deliver_failed (failed : channels.deliver byte = (.error error, after)) :
    after.output = channels.output ∧ after.input = channels.input := by
  obtain ⟨writes, accepted | ⟨reason, refused⟩⟩ := channels.deliver_ways byte
  · rw [accepted] at failed
    cases failed
  · rw [refused] at failed
    cases failed
    exact ⟨rfl, rfl⟩

/-- A read that fails passes nothing on, and takes nothing from the input. -/
theorem receive_failed (failed : channels.receive = (.error error, after)) :
    after.output = channels.output ∧ Delivery.data after.input = Delivery.data channels.input := by
  obtain ⟨flushes, ⟨reason, unflushed⟩ | answered⟩ := channels.receive_ways
  · rw [unflushed] at failed
    cases failed
    exact ⟨by simp [output, Transfer.byte?], rfl⟩
  · rw [answered] at failed
    obtain ⟨taken, rfl⟩ := Prod.mk.inj failed
    exact ⟨output_receive channels _ flushes _, Delivery.data_of_failed (Prod.ext taken rfl)⟩

end Channels

end UniversalMachine
