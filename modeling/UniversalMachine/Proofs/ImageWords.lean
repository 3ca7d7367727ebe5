import UniversalMachine.Image
import UniversalMachine.Proofs.FieldPacking

/-!
# The words of an image

Four bytes make a word in which each of them has a field of its own. No byte is too wide for
its field, so packing an image never fails, and what it gives are the words of the image.
-/

namespace UniversalMachine

namespace Word

theorem toNat_shiftLeft_byte (byte : UInt8) (width : Word) (places : Nat)
    (same : width.toNat = places) (small : places ≤ 24) :
    (byte.toUInt32 <<< width).toNat = byte.toNat * 2 ^ places := by
  have room : byte.toNat * 2 ^ places < 2 ^ 32 := by
    calc
      byte.toNat * 2 ^ places < 2 ^ 8 * 2 ^ places :=
        Nat.mul_lt_mul_of_pos_right byte.toNat_lt (Nat.two_pow_pos places)
      _ ≤ 2 ^ 8 * 2 ^ 24 := Nat.mul_le_mul_left _ (Nat.pow_le_pow_right (by decide) small)
  rw [UInt32.toNat_shiftLeft, UInt8.toNat_toUInt32, same,
    Nat.mod_eq_of_lt (Nat.lt_of_le_of_lt small (by decide)), Nat.shiftLeft_eq,
    Nat.mod_eq_of_lt room]

/-- Numbers that share no bit are put together by adding them. -/
theorem or_eq_add {low places : Nat} (fits : low < 2 ^ places) (high : Nat) :
    high * 2 ^ places ||| low = high * 2 ^ places + low := by
  rw [Nat.mul_comm]
  exact (Nat.two_pow_add_eq_or_of_lt fits high).symm

theorem byte_add_lt (byte : UInt8) {low places : Nat} (fits : low < 2 ^ places) :
    byte.toNat * 2 ^ places + low < 2 ^ (places + 8) := by
  calc
    byte.toNat * 2 ^ places + low < (byte.toNat + 1) * 2 ^ places := by
      rw [Nat.succ_mul]
      exact Nat.add_lt_add_left fits _
    _ ≤ 2 ^ 8 * 2 ^ places := Nat.mul_le_mul_right _ byte.toNat_lt
    _ = 2 ^ (places + 8) := by rw [Nat.add_comm, Nat.pow_add]

theorem toNat_ofBytes (a b c d : UInt8) :
    (ofBytes a b c d).toNat =
      a.toNat * 2 ^ 24 + b.toNat * 2 ^ 16 + c.toNat * 2 ^ 8 + d.toNat := by
  have low : d.toNat < 2 ^ 8 := d.toNat_lt
  have lower : c.toNat * 2 ^ 8 + d.toNat < 2 ^ 16 := byte_add_lt c low
  have upper : b.toNat * 2 ^ 16 + (c.toNat * 2 ^ 8 + d.toNat) < 2 ^ 24 := byte_add_lt b lower
  calc
    (ofBytes a b c d).toNat =
        a.toNat * 2 ^ 24 ||| b.toNat * 2 ^ 16 ||| c.toNat * 2 ^ 8 ||| d.toNat := by
      rw [ofBytes, UInt32.toNat_or, UInt32.toNat_or, UInt32.toNat_or,
        toNat_shiftLeft_byte a 24 24 rfl (by decide), toNat_shiftLeft_byte b 16 16 rfl (by decide),
        toNat_shiftLeft_byte c 8 8 rfl (by decide), UInt8.toNat_toUInt32]
    _ = a.toNat * 2 ^ 24 ||| (b.toNat * 2 ^ 16 ||| (c.toNat * 2 ^ 8 ||| d.toNat)) := by
      rw [Nat.or_assoc, Nat.or_assoc]
    _ = a.toNat * 2 ^ 24 + (b.toNat * 2 ^ 16 + (c.toNat * 2 ^ 8 + d.toNat)) := by
      rw [or_eq_add low, or_eq_add lower, or_eq_add upper]
    _ = a.toNat * 2 ^ 24 + b.toNat * 2 ^ 16 + c.toNat * 2 ^ 8 + d.toNat := by
      rw [Nat.add_assoc, Nat.add_assoc]

/-- A byte of a word is a quotient by a power of 256, cut to eight bits. -/
theorem toNat_byte (word width : Word) (places : Nat) (same : width.toNat = places)
    (small : places ≤ 24) : (word >>> width).toUInt8.toNat = word.toNat / 2 ^ places % 2 ^ 8 := by
  rw [UInt32.toNat_toUInt8, UInt32.toNat_shiftRight, same,
    Nat.mod_eq_of_lt (Nat.lt_of_le_of_lt small (by decide)), Nat.shiftRight_eq_div_pow]

/-- A word is the one that its bytes make. -/
theorem ofBytes_bytes (word : Word) :
    ofBytes (word >>> 24).toUInt8 (word >>> 16).toUInt8 (word >>> 8).toUInt8 word.toUInt8 =
      word := by
  have bound : word.toNat < 2 ^ 32 := word.toNat_lt
  apply UInt32.toNat_inj.mp
  rw [toNat_ofBytes, toNat_byte word 24 24 rfl (by decide), toNat_byte word 16 16 rfl (by decide),
    toNat_byte word 8 8 rfl (by decide), UInt32.toNat_toUInt8]
  omega

/-- The bytes of a word are those that make it. -/
theorem toBytes_ofBytes (a b c d : UInt8) : (ofBytes a b c d).toBytes = [a, b, c, d] := by
  have sum := toNat_ofBytes a b c d
  have lower_bytes := And.intro b.toNat_lt (And.intro c.toNat_lt d.toNat_lt)
  have high_byte := a.toNat_lt
  rw [toBytes, List.cons.injEq, List.cons.injEq, List.cons.injEq, List.cons.injEq]
  refine ⟨?_, ?_, ?_, ?_, rfl⟩
  · apply UInt8.toNat_inj.mp
    rw [toNat_byte _ 24 24 rfl (by decide), sum]
    omega
  · apply UInt8.toNat_inj.mp
    rw [toNat_byte _ 16 16 rfl (by decide), sum]
    omega
  · apply UInt8.toNat_inj.mp
    rw [toNat_byte _ 8 8 rfl (by decide), sum]
    omega
  · apply UInt8.toNat_inj.mp
    rw [UInt32.toNat_toUInt8, sum]
    omega

end Word

namespace Image

/-! ## Packing -/

/-- The bytes of a word with the slots they go into. -/
def byteEntries (a b c d : UInt8) : List (Slot × Nat) :=
  [({ lsb := 24, width := 8 }, a.toNat), ({ lsb := 16, width := 8 }, b.toNat),
    ({ lsb := 8, width := 8 }, c.toNat), ({ lsb := 0, width := 8 }, d.toNat)]

theorem packWord_eq_pack (a b c d : UInt8) :
    packWord a b c d = Word.ofLow <$> Slot.pack 0 (byteEntries a b c d) := by
  simp only [packWord, byteEntries, Slot.pack, map_bind]
  rfl

/-- No byte is too wide for its field, and the four fields make up the word. -/
theorem packWord_eq (a b c d : UInt8) : packWord a b c d = .ok (Word.ofBytes a b c d) := by
  let entries := byteEntries a b c d
  have fits : ∀ entry ∈ entries, entry.2 < 2 ^ entry.1.width := by
    simp only [entries, byteEntries, List.forall_mem_cons, List.not_mem_nil, false_implies,
      implies_true, and_true]
    exact ⟨a.toNat_lt, b.toNat_lt, c.toNat_lt, d.toNat_lt⟩
  have apart : (entries.map Prod.fst).Pairwise fun earlier later => later.Apart earlier := by
    apply Slot.pairwise_apart
    simp only [entries, byteEntries, List.map_cons, List.map_nil]
    decide
  have low : ∀ entry ∈ entries, entry.1.lsb + entry.1.width ≤ 32 := by
    simp [entries, byteEntries]
  let word := Word.ofLow (Slot.putAll 0 entries)
  -- Each field of the packed word shows its byte, and there is nothing above them.
  have shown : ∀ entry ∈ entries,
      word.toNat / 2 ^ entry.1.lsb % 2 ^ entry.1.width = entry.2 := by
    intro entry mem
    rw [← Slot.value_widen, Word.widen_ofLow_putAll low]
    exact Slot.value_putAll apart fits entry mem
  have bound : word.toNat < 2 ^ 32 := word.toNat_lt
  have packed : word = Word.ofBytes a b c d := by
    apply UInt32.toNat_inj.mp
    rw [Word.toNat_ofBytes]
    simp only [entries, byteEntries, List.forall_mem_cons, List.not_mem_nil, false_implies,
      implies_true, and_true] at shown
    omega
  rw [packWord_eq_pack, Slot.pack_of_fits fits, ← packed]
  rfl

theorem size_words (bytes : List UInt8) : (words bytes).size = bytes.length / 4 := by
  simp [words]

theorem words_of_short {bytes : List UInt8} (short : bytes.length < 4) : words bytes = #[] := by
  apply Array.eq_empty_of_size_eq_zero
  rw [size_words, Nat.div_eq_of_lt short]

/-- Each word is made of the four bytes at its place. -/
theorem getElem_words {bytes : List UInt8} {i : Nat} (inside : i < (words bytes).size) :
    ∃ room : 4 * i + 3 < bytes.length,
      (words bytes)[i] =
        Word.ofBytes bytes[4 * i] bytes[4 * i + 1] bytes[4 * i + 2] bytes[4 * i + 3] := by
  have room : 4 * i + 3 < bytes.length := by
    rw [size_words] at inside
    omega
  exact ⟨room, by simp [words]⟩

theorem words_cons (a b c d : UInt8) (rest : List UInt8) :
    words (a :: b :: c :: d :: rest) = #[Word.ofBytes a b c d] ++ words rest := by
  apply Array.ext
  · rw [Array.size_append, size_words, size_words]
    simp only [List.length_cons, List.size_toArray, List.length_nil]
    omega
  · intro i inside other
    obtain ⟨room, word⟩ := getElem_words inside
    cases i with
    | zero =>
        calc
          (words (a :: b :: c :: d :: rest))[0] = Word.ofBytes a b c d := word
          _ = (#[Word.ofBytes a b c d] ++ words rest)[0] := by
            rw [Array.getElem_append_left Nat.zero_lt_one]
            rfl
    | succ i =>
        have inside_rest : i < (words rest).size := by
          rw [Array.size_append] at other
          exact Nat.lt_of_add_lt_add_left (Nat.add_comm i 1 ▸ other)
        obtain ⟨room_rest, word_rest⟩ := getElem_words inside_rest
        calc
          (words (a :: b :: c :: d :: rest))[i + 1] = (words rest)[i] :=
            word.trans word_rest.symm
          _ = (#[Word.ofBytes a b c d] ++ words rest)[i + 1] := by
            rw [Array.getElem_append_right (Nat.le_add_left 1 i)]
            rfl

/-- An image is packed behind what is packed so far, whatever its bytes are. -/
theorem packFrom_eq (packed : Array Word) (bytes : List UInt8) :
    packFrom packed bytes = .ok (packed ++ words bytes) := by
  fun_induction packFrom packed bytes with
  | case1 packed a b c d rest word made ih =>
      rw [packWord_eq, Except.ok.injEq] at made
      rw [ih, words_cons, made]
      simp
  | case2 packed a b c d rest overflow failed => simp [packWord_eq] at failed
  | case3 bytes packed no_word =>
      have short : bytes.length < 4 := by
        rcases bytes with _ | ⟨a, _ | ⟨b, _ | ⟨c, _ | ⟨d, rest⟩⟩⟩⟩
        · simp
        · simp
        · simp
        · simp
        · exact (no_word a b c d rest rfl).elim
      rw [words_of_short short, Array.append_empty]

/-- Packing never fails. -/
theorem pack_eq (bytes : List UInt8) : pack bytes = .ok (words bytes) := by
  rw [pack, packFrom_eq, Array.empty_append]

/-! ## Words to bytes and back -/

theorem ofWords_cons (word : Word) (rest : List Word) :
    ofWords (word :: rest) = word.toBytes ++ ofWords rest :=
  List.flatMap_cons

theorem length_ofWords (ws : List Word) : (ofWords ws).length = 4 * ws.length := by
  induction ws with
  | nil => rfl
  | cons word rest ih =>
      rw [ofWords_cons, List.length_append, ih, List.length_cons, Word.toBytes]
      simp only [List.length_cons, List.length_nil]
      omega

/-- Words that were written out are read back, and bytes that fill no word do not matter. -/
theorem words_ofWords (ws : List Word) {tail : List UInt8} (short : tail.length < 4) :
    words (ofWords ws ++ tail) = ws.toArray := by
  induction ws with
  | nil => exact words_of_short short
  | cons word rest ih =>
      rw [ofWords_cons, Word.toBytes]
      simp only [List.cons_append, List.nil_append]
      rw [words_cons, ih, Word.ofBytes_bytes]
      simp

theorem ofWords_words_of_short {bytes : List UInt8} (short : bytes.length < 4) :
    ofWords (words bytes).toList = bytes.take (bytes.length - dropped bytes) := by
  rw [words_of_short short, dropped, Nat.mod_eq_of_lt short, Nat.sub_self, List.take_zero]
  rfl

/-- The words of an image, written out, are its bytes up to the last whole word. -/
theorem ofWords_words : ∀ bytes : List UInt8,
    ofWords (words bytes).toList = bytes.take (bytes.length - dropped bytes)
  | a :: b :: c :: d :: rest => by
      have whole : (a :: b :: c :: d :: rest).length - dropped (a :: b :: c :: d :: rest) =
          rest.length - dropped rest + 4 := by
        simp only [dropped, List.length_cons]
        omega
      rw [words_cons, Array.toList_append, whole]
      calc
        ofWords ([Word.ofBytes a b c d] ++ (words rest).toList) =
            [a, b, c, d] ++ ofWords (words rest).toList := by
          rw [List.singleton_append, ofWords_cons, Word.toBytes_ofBytes]
        _ = [a, b, c, d] ++ rest.take (rest.length - dropped rest) := by rw [ofWords_words rest]
        _ = (a :: b :: c :: d :: rest).take (rest.length - dropped rest + 4) := rfl
  | [] => ofWords_words_of_short (by simp)
  | [_] => ofWords_words_of_short (by simp)
  | [_, _] => ofWords_words_of_short (by simp)
  | [_, _, _] => ofWords_words_of_short (by simp)

end Image

end UniversalMachine
