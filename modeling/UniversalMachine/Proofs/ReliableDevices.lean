import UniversalMachine.Proofs.ByteReads
import UniversalMachine.Proofs.UnreadInput

/-!
# Devices that never fail

An output is reliable if every byte that is written and every flush succeeds, be it after
interruptions. An input supplies some bytes if these are what it has to give before its end. A
write to a reliable output and a read after it each have one way to go.
-/

namespace UniversalMachine

namespace Delivery

/-- Requests for single bytes get these bytes and then ends of the input only, however the bytes
are delivered. -/
def Supplies (script : List Delivery) (bytes : List UInt8) : Prop :=
  ∃ ends, flatten script = giving bytes ++ List.replicate ends (.ok none)

/-- The answer to a request is the first byte, and the end if there is none. -/
theorem headD_giving (bytes : List UInt8) (ends : Nat) :
    (giving bytes ++ List.replicate ends (.ok none : ByteAnswer)).headD (.ok none) =
      .ok bytes.head? := by
  cases bytes with
  | nil => cases ends <;> rfl
  | cons byte rest => rfl

end Delivery

namespace Channels

variable {channels : Channels}

/-- The output takes every byte and passes on what it was given. -/
structure Reliable (channels : Channels) : Prop where
  writes : WriteReply.Harmless channels.writes
  flushes : ∀ reply ∈ channels.flushes, reply = .done

theorem Reliable.deliver (reliable : channels.Reliable) (byte : UInt8) :
    ∃ next, channels.deliver byte = (.ok (), next) ∧ next.Reliable ∧
      next.input = channels.input ∧ next.output = channels.output ++ [byte] := by
  obtain ⟨taken, harmless⟩ := reliable.writes.offer
  have offered : WriteReply.offer channels.writes =
      (.ok (), (WriteReply.offer channels.writes).2) := Prod.ext taken rfl
  rw [Channels.deliver, offered]
  exact ⟨_, rfl, ⟨harmless, reliable.flushes⟩, rfl, channels.output_push_byte _ byte⟩

theorem Reliable.flush (reliable : channels.Reliable) : channels.flush.1 = .ok () := by
  obtain ⟨done, -⟩ := served_of_done reliable.flushes 0
  rw [← List.headD_eq_getD] at done
  rw [flush_answer, done]

/-- What the input gives is received, and no output passes. -/
theorem Reliable.receive (reliable : channels.Reliable) :
    ∃ next, channels.receive = ((Delivery.flatten channels.input).headD (.ok none), next) ∧
      next.Reliable ∧
      Delivery.flatten next.input = (Delivery.flatten channels.input).tail ∧
      next.output = channels.output := by
  obtain ⟨head, tail⟩ := Delivery.takeByte_flatten channels.input
  have later : ∀ reply ∈ channels.flushes.tail, reply = .done :=
    fun reply mem => reliable.flushes reply (List.mem_of_mem_tail mem)
  rw [receive_of_flushed reliable.flush, head]
  exact ⟨_, rfl, ⟨reliable.writes, later⟩, tail, channels.output_receive _ _ _⟩

end Channels

end UniversalMachine
