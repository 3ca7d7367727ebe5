import UniversalMachine.Log

/-!
# Program images

An image is a sequence of bytes, four for each word of a program. Bytes that do not fill a
word at its end are dropped. Loading packs the bytes into words and makes these the program of
a new store.
-/

namespace UniversalMachine

namespace Image

/-- The bytes of words, in order. -/
def ofWords (words : List Word) : List UInt8 :=
  words.flatMap Word.toBytes

/-- The words of an image, each from four consecutive bytes. -/
def words (bytes : List UInt8) : Array Word :=
  let image := bytes.toArray
  Array.ofFn fun i : Fin (image.size / 4) =>
    Word.ofBytes image[4 * i.val] image[4 * i.val + 1] image[4 * i.val + 2] image[4 * i.val + 3]

/-- The field of a word that holds its byte `i`, counted from the most significant one. -/
def byteField (i : Fin 4) : BitField 8 where
  lsb := 8 * (3 - i.val)
  inside := by omega

/-- Packs four bytes into a word, the most significant one first. -/
def packWord (a b c d : UInt8) : Except Overflow Word := do
  let bits ← (byteField 0).setUnsigned 0 a.toNat
  let bits ← (byteField 1).setUnsigned bits b.toNat
  let bits ← (byteField 2).setUnsigned bits c.toNat
  let bits ← (byteField 3).setUnsigned bits d.toNat
  return Word.ofLow bits

/-- Packs the whole words of an image behind the words packed so far. -/
def packFrom (packed : Array Word) : List UInt8 → Except Overflow (Array Word)
  | a :: b :: c :: d :: rest =>
    match packWord a b c d with
    | .ok word => packFrom (packed.push word) rest
    | .error overflow => .error overflow
  | _ => .ok packed

/-- Packs the whole words of an image. -/
def pack (bytes : List UInt8) : Except Overflow (Array Word) :=
  packFrom #[] bytes

/-- The number of bytes after the last whole word. -/
def dropped (bytes : List UInt8) : Nat :=
  bytes.length % 4

/-- A program has fewer words than this, so that an offset can address each of them. -/
def wordLimit : Nat :=
  UInt32.size

/-- A store with the given words as its only segment, the program. -/
def install (words : Array Word) (memory : Bool) : Except Fault Store × List Event :=
  if wordLimit ≤ words.size then (.error (.programTooLarge words.size), [])
  else
    match (∅ : Store).allocate words.size memory with
    | .error fault => (.error fault, [])
    | .ok (handle, store) =>
      match store.fill handle words.toList with
      | (.error fault, _) => (.error fault, [.store (.mapped handle words.size)])
      | (.ok (), store) =>
        (.ok store, [.store (.mapped handle words.size), .loaded words.size])

/-- Reads an image to its end and makes its words the program of a new store, if there is memory
for it. -/
def load (image : List Delivery) (memory : Bool) : Except Fault Store × List Event :=
  match Delivery.readAll image with
  | .error error => (.error (.channel error), [])
  | .ok bytes =>
    let (result, events) :=
      match pack bytes with
      | .error overflow => (.error (.overflow overflow), [])
      | .ok words => install words memory
    (result, if dropped bytes = 0 then events else .dropped (dropped bytes) :: events)

end Image

end UniversalMachine
