/-!
# Machine words

Registers, cells of memory, handles and instructions are all 32-bit words. Outside the
machine a word is four bytes, the most significant byte first.
-/

namespace UniversalMachine

/-- The unit of everything the machine works with. -/
abbrev Word := UInt32

namespace Word

/-- The word whose bytes are given from the most significant to the least. -/
def ofBytes (a b c d : UInt8) : Word :=
  a.toUInt32 <<< 24 ||| b.toUInt32 <<< 16 ||| c.toUInt32 <<< 8 ||| d.toUInt32

/-- The four bytes of a word, the most significant one first. -/
def toBytes (word : Word) : List UInt8 :=
  [(word >>> 24).toUInt8, (word >>> 16).toUInt8, (word >>> 8).toUInt8, word.toUInt8]

/-- The word in the low half of 64 bits. -/
def widen (word : Word) : BitVec 64 :=
  word.toBitVec.setWidth 64

/-- The low half of 64 bits. -/
def ofLow (bits : BitVec 64) : Word :=
  UInt32.ofBitVec (bits.setWidth 32)

/-- Eight lower-case hexadecimal digits. -/
def hex (word : Word) : String :=
  String.ofList ((List.range 8).map fun i => Nat.digitChar ((word.toNat >>> (4 * (7 - i))) % 16))

end Word

end UniversalMachine
