import UniversalMachine.Channel

/-!
# The input byte by byte

Requests for single bytes do not see how the bytes were delivered. What they see is the script
of the input flattened: the bytes of every chunk one after the other, the ends and the
failures in between, and nothing of the interruptions.
-/

namespace UniversalMachine

namespace Delivery

/-- The answer to a request for one byte, `none` at the end of the input. -/
abbrev ByteAnswer := Except ChannelError (Option UInt8)

/-- The answers that one delivery is good for. -/
def byteAnswers : Delivery → List ByteAnswer
  | .chunk [] => [.ok none]
  | .chunk bytes => bytes.map fun byte => .ok (some byte)
  | .endOfInput => [.ok none]
  | .interrupted => []
  | .failure text => [.error (.device text)]

/-- The answers to the requests for single bytes up to where the script is used up. -/
def flatten (script : List Delivery) : List ByteAnswer :=
  script.flatMap byteAnswers

/-- A request takes the first answer off the flattened script. A script that is used up answers
that the input has ended. -/
theorem takeByte_flatten (script : List Delivery) :
    (takeByte script).1 = (flatten script).headD (.ok none) ∧
      flatten (takeByte script).2 = (flatten script).tail := by
  induction script with
  | nil => exact ⟨rfl, rfl⟩
  | cons delivery rest ih =>
      cases delivery with
      | chunk bytes =>
          cases bytes with
          | nil => exact ⟨rfl, rfl⟩
          | cons byte bytes => cases bytes <;> exact ⟨rfl, rfl⟩
      | interrupted => exact ih
      | endOfInput | failure text => exact ⟨rfl, rfl⟩

end Delivery

end UniversalMachine
