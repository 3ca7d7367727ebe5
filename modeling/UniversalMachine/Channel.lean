import UniversalMachine.Word

/-!
# Byte channels

The machine has one input and one output, both carrying bytes. How a device will answer is
part of the state: each request takes the next answer from a list. An input whose list is
used up has ended, an output whose list is used up accepts everything. An interrupted
request is repeated, and every request leaves an entry in a transcript.
-/

namespace UniversalMachine

/-- The answer of an input to a request for bytes. -/
inductive Delivery where
  /-- Bytes, of which a request takes as many as it wants; without bytes, the end. -/
  | chunk (bytes : List UInt8)
  | endOfInput
  | interrupted
  | failure (text : String)
deriving DecidableEq, Repr

/-- The answer of an output that is offered one byte. -/
inductive WriteReply where
  | accepted
  | interrupted
  /-- The output took none of the bytes offered. -/
  | nothing
  | failure (text : String)
deriving DecidableEq, Repr

/-- The answer of an output that is told to pass its bytes on. -/
inductive FlushReply where
  | done
  | failure (text : String)
deriving DecidableEq, Repr

/-- Why an exchange with a device failed. -/
inductive ChannelError where
  | device (text : String)
  | nothingAccepted
deriving DecidableEq, Repr

def ChannelError.message : ChannelError → String
  | .device text => text
  | .nothingAccepted => "failed to write whole buffer"

/-- An entry of the transcript. A byte is entered when the output accepts it, a flush and a
read when they are requested, whatever the answer. -/
inductive Transfer where
  | byte (value : UInt8)
  | flush
  | read
deriving DecidableEq, Repr

def Transfer.byte? : Transfer → Option UInt8
  | .byte value => some value
  | .flush => none
  | .read => none

namespace Delivery

/-- One byte from the input, `none` at its end. Interrupted requests are repeated; the rest of
a chunk stays in front. -/
def takeByte : List Delivery → Except ChannelError (Option UInt8) × List Delivery
  | [] => (.ok none, [])
  | .chunk [] :: rest => (.ok none, rest)
  | .chunk [byte] :: rest => (.ok (some byte), rest)
  | .chunk (byte :: bytes) :: rest => (.ok (some byte), .chunk bytes :: rest)
  | .endOfInput :: rest => (.ok none, rest)
  | .interrupted :: rest => takeByte rest
  | .failure text :: rest => (.error (.device text), rest)

/-- How many requests it takes until one is not interrupted. -/
def requests : List Delivery → Nat
  | .interrupted :: rest => requests rest + 1
  | _ => 1

/-- All bytes up to the next end of the input. -/
def readAll : List Delivery → Except ChannelError (List UInt8)
  | [] => .ok []
  | .chunk [] :: _ => .ok []
  | .chunk bytes :: rest => (bytes ++ ·) <$> readAll rest
  | .endOfInput :: _ => .ok []
  | .interrupted :: rest => readAll rest
  | .failure text :: _ => .error (.device text)

end Delivery

/-- Offers one byte until an offer is not interrupted. -/
def WriteReply.offer : List WriteReply → Except ChannelError Unit × List WriteReply
  | [] => (.ok (), [])
  | .accepted :: rest => (.ok (), rest)
  | .interrupted :: rest => offer rest
  | .nothing :: rest => (.error .nothingAccepted, rest)
  | .failure text :: rest => (.error (.device text), rest)

/-- Tells the output once to pass its bytes on. -/
def FlushReply.request : List FlushReply → Except ChannelError Unit × List FlushReply
  | [] => (.ok (), [])
  | .done :: rest => (.ok (), rest)
  | .failure text :: rest => (.error (.device text), rest)

/-- The word that stands for the end of the input. -/
def endOfInput : Word :=
  0xFFFFFFFF

/-- The word that an input instruction stores. -/
def inputWord : Option UInt8 → Word
  | some byte => byte.toUInt32
  | none => endOfInput

/-- The input and output of a machine. -/
structure Channels where
  /-- The answers of the input still to come. -/
  input : List Delivery
  /-- The answers of the output to the bytes still to come. -/
  writes : List WriteReply := []
  /-- The answers of the output to the flushes still to come. -/
  flushes : List FlushReply := []
  /-- What has passed so far, the oldest entry first. -/
  transcript : Array Transfer := #[]
deriving DecidableEq

namespace Channels

/-- Tells the output to pass its bytes on. -/
def flush (channels : Channels) : Except ChannelError Unit × Channels :=
  let (answer, flushes) := FlushReply.request channels.flushes
  (answer, { channels with flushes, transcript := channels.transcript.push .flush })

/-- Writes one byte. -/
def deliver (channels : Channels) (byte : UInt8) : Except ChannelError Unit × Channels :=
  match WriteReply.offer channels.writes with
  | (.ok (), writes) =>
    (.ok (), { channels with writes, transcript := channels.transcript.push (.byte byte) })
  | (.error error, writes) => (.error error, { channels with writes })

/-- Reads one byte, `none` at the end of the input. What was written so far may be a question
that the input answers, so it is passed on first, and nothing is read if that fails. -/
def receive (channels : Channels) : Except ChannelError (Option UInt8) × Channels :=
  match channels.flush with
  | (.error error, channels) => (.error error, channels)
  | (.ok (), channels) =>
    let reads := Array.replicate (Delivery.requests channels.input) Transfer.read
    let (answer, input) := Delivery.takeByte channels.input
    (answer, { channels with input, transcript := channels.transcript ++ reads })

/-- The bytes that the output accepted, in order. -/
def output (channels : Channels) : List UInt8 :=
  channels.transcript.toList.filterMap Transfer.byte?

variable {channels after : Channels}

/-- A write either succeeds, and its byte is the latest entry of the transcript, or changes nothing
but what the output will answer. -/
theorem deliver_ways (channels : Channels) (byte : UInt8) :
    ∃ writes,
      channels.deliver byte =
        (.ok (), { channels with writes, transcript := channels.transcript.push (.byte byte) }) ∨
      ∃ error, channels.deliver byte = (.error error, { channels with writes }) := by
  unfold deliver
  split
  · next writes _ => exact ⟨writes, .inl rfl⟩
  · next error writes _ => exact ⟨writes, .inr ⟨error, rfl⟩⟩

/-- The input has no part in a write. -/
theorem deliver_input (channels : Channels) (byte : UInt8) :
    (channels.deliver byte).2.input = channels.input := by
  obtain ⟨writes, accepted | ⟨error, refused⟩⟩ := channels.deliver_ways byte
  · rw [accepted]
  · rw [refused]

/-- A read either fails with the flush before it, or answers what the input gives. -/
theorem receive_ways (channels : Channels) :
    ∃ flushes,
      (∃ error, channels.receive =
        (.error error, { channels with flushes, transcript := channels.transcript.push .flush })) ∨
      channels.receive = ((Delivery.takeByte channels.input).1, { channels with
        input := (Delivery.takeByte channels.input).2
        flushes
        transcript := channels.transcript.push .flush ++
          Array.replicate (Delivery.requests channels.input) Transfer.read }) := by
  unfold receive flush
  generalize FlushReply.request channels.flushes = reply
  obtain ⟨flushed, flushes⟩ := reply
  cases flushed with
  | error error => exact ⟨flushes, .inl ⟨error, rfl⟩⟩
  | ok done => exact ⟨flushes, .inr rfl⟩

/-- A byte that was written is the latest entry of the transcript. -/
theorem deliver_cases {byte : UInt8} (delivered : channels.deliver byte = (.ok (), after)) :
    ∃ writes, after =
      { channels with writes, transcript := channels.transcript.push (.byte byte) } := by
  obtain ⟨writes, accepted | ⟨error, failed⟩⟩ := channels.deliver_ways byte
  · rw [accepted] at delivered
    cases delivered
    exact ⟨writes, rfl⟩
  · rw [failed] at delivered
    cases delivered

/-- A byte that was read is what the input gave, after a flush. -/
theorem receive_cases {byte? : Option UInt8} (received : channels.receive = (.ok byte?, after)) :
    ∃ flushes, (Delivery.takeByte channels.input).1 = .ok byte? ∧
      after = { channels with
        input := (Delivery.takeByte channels.input).2
        flushes
        transcript := channels.transcript.push .flush ++
          Array.replicate (Delivery.requests channels.input) Transfer.read } := by
  obtain ⟨flushes, ⟨error, failed⟩ | answered⟩ := channels.receive_ways
  · rw [failed] at received
    cases received
  · rw [answered] at received
    obtain ⟨taken, rfl⟩ := Prod.mk.inj received
    exact ⟨flushes, taken, rfl⟩

/-- Flushes and reads are no output. -/
theorem output_receive (channels : Channels) (input : List Delivery) (flushes : List FlushReply)
    (reads : Nat) :
    output { channels with
      input, flushes
      transcript := channels.transcript.push .flush ++ Array.replicate reads Transfer.read } =
      channels.output := by
  simp [output, Transfer.byte?]

theorem output_push_byte (channels : Channels) (writes : List WriteReply) (byte : UInt8) :
    output { channels with writes, transcript := channels.transcript.push (.byte byte) } =
      channels.output ++ [byte] := by
  simp [output, Transfer.byte?]

end Channels

end UniversalMachine
