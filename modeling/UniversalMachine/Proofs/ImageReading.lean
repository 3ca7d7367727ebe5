import UniversalMachine.Proofs.DeviceFailure
import UniversalMachine.Proofs.ImageLoading

/-!
# Reading an image

An image is read up to the first read that gets no byte, however it is split into reads and
whatever reads are interrupted. Only a read that fails before that keeps it from being loaded.
The store that comes out has the words of the image, so words that were written out to an image
are loaded from it again.
-/

namespace UniversalMachine

namespace Delivery

/-- Whether nothing is read after this answer: it fails, or it gives no byte. -/
def isFinal : Delivery → Bool
  | .chunk bytes => bytes.isEmpty
  | .endOfInput | .failure _ => true
  | .interrupted => false

/-- The bytes of all answers before the final one. -/
def content (script : List Delivery) : List UInt8 :=
  data (script.takeWhile fun delivery => !delivery.isFinal)

theorem content_cons_of_passing {delivery : Delivery} (passing : delivery.isFinal = false)
    (script : List Delivery) : content (delivery :: script) = delivery.bytes ++ content script := by
  rw [content, List.takeWhile_cons, passing, content, data, data]
  simp

theorem content_cons_of_final {delivery : Delivery} (final : delivery.isFinal = true)
    (script : List Delivery) : content (delivery :: script) = [] := by
  rw [content, List.takeWhile_cons, final]
  rfl

/-- Reading to the end fails if the final answer is a failure. -/
theorem readAll_eq (script : List Delivery) :
    readAll script =
      match script.find? isFinal with
      | some (.failure text) => .error (.device text)
      | _ => .ok (content script) := by
  fun_induction readAll script with
  | case1 => rfl
  | case2 | case4 =>
      rw [content_cons_of_final rfl]
      rfl
  | case3 bytes rest nonempty ih =>
      have passing : (chunk bytes).isFinal = false := by
        simpa [isFinal] using nonempty
      rw [ih, List.find?_cons_of_neg (by simp [passing]), content_cons_of_passing passing]
      cases rest.find? isFinal with
      | none => rfl
      | some final => cases final <;> rfl
  | case5 rest ih =>
      rw [ih, List.find?_cons_of_neg (by simp [isFinal]), content_cons_of_passing rfl]
      rfl
  | case6 text rest => rfl

theorem eq_content_of_readAll {script : List Delivery} {bytes : List UInt8}
    (read : readAll script = .ok bytes) : bytes = content script := by
  rw [readAll_eq] at read
  split at read
  · cases read
  · exact (Except.ok.inj read).symm

/-- All bytes may come at once. -/
theorem readAll_singleton (bytes : List UInt8) : readAll [.chunk bytes] = .ok bytes := by
  cases bytes with
  | nil => rfl
  | cons byte rest => exact congrArg Except.ok (List.append_nil _)

end Delivery

namespace Image

variable {image : List Delivery}

theorem load_of_failure {text : String}
    (fails : image.find? Delivery.isFinal = some (.failure text)) :
    (load image true).1 = .error (.channel (.device text)) := by
  rw [load, Delivery.readAll_eq, fails]

theorem load_of_read {bytes : List UInt8} (read : Delivery.readAll image = .ok bytes)
    (short : bytes.length / 4 < wordLimit) :
    (load image true).1 = .ok (.ofProgram (words bytes)) := by
  rw [← size_words] at short
  rw [load, read]
  simp only [pack_eq, install_of_lt short]

/-- Words that were written out are loaded again. -/
theorem load_of_written {ws : List Word} (read : Delivery.readAll image = .ok (ofWords ws))
    (short : ws.length < wordLimit) : (load image true).1 = .ok (.ofProgram ws.toArray) := by
  have whole : (ofWords ws).length / 4 = ws.length := by
    rw [length_ofWords, Nat.mul_div_cancel_left _ (by decide)]
  have again : words (ofWords ws ++ []) = ws.toArray := words_ofWords ws (by decide)
  rw [List.append_nil] at again
  rw [load_of_read read (whole.symm ▸ short), again]

theorem load_of_end (ends : ∀ text, image.find? Delivery.isFinal ≠ some (.failure text))
    (short : (Delivery.content image).length / 4 < wordLimit) :
    (load image true).1 = .ok (.ofProgram (words (Delivery.content image))) := by
  apply load_of_read _ short
  rw [Delivery.readAll_eq]
  split
  · next text fails => exact absurd fails (ends text)
  · rfl

/-- With memory for the program, loading an image fails if a read fails before one gets no byte, and
with nothing but that failure. Otherwise the store that is loaded has the program and nothing else.
The program has a word for each four bytes that were read, the first byte at the top. So it is the
words that were written out to the image, and gives the bytes of the image back up to its last
whole word. -/
theorem load_conforms (short : (Delivery.content image).length / 4 < 2 ^ 32 - 1) :
    let bytes := Delivery.content image
    (∀ fault, (load image true).1 = .error fault ↔
      ∃ text, image.find? Delivery.isFinal = some (.failure text) ∧
        fault = .channel (.device text)) ∧
    ((∀ text, image.find? Delivery.isFinal ≠ some (.failure text)) →
      ∃ program : Segment, (load image true).1 = .ok ⟨#[some program], []⟩ ∧
        program.size = bytes.length / 4 ∧
        (∀ i (inside : i < program.size), ∃ room : 4 * i + 3 < bytes.length,
          program[i].toNat =
            bytes[4 * i].toNat * 2 ^ 24 + bytes[4 * i + 1].toNat * 2 ^ 16 +
              bytes[4 * i + 2].toNat * 2 ^ 8 + bytes[4 * i + 3].toNat) ∧
        (∀ ws tail, tail.length ≤ 3 → bytes = ofWords ws ++ tail → program.toList = ws) ∧
        ofWords program.toList = bytes.take (bytes.length - bytes.length % 4)) := by
  intro bytes
  have within : bytes.length / 4 < wordLimit := Nat.lt_trans short (by decide)
  refine ⟨?_, ?_⟩
  · intro fault
    constructor
    · intro failed
      by_contra other
      have ends : ∀ text, image.find? Delivery.isFinal ≠ some (.failure text) := by
        intro text fails
        rw [load_of_failure fails, Except.error.injEq] at failed
        exact other ⟨text, fails, failed.symm⟩
      rw [load_of_end ends within] at failed
      cases failed
    · rintro ⟨text, fails, rfl⟩
      exact load_of_failure fails
  · intro ends
    refine ⟨words bytes, load_of_end ends within, size_words bytes, ?_, ?_, ofWords_words bytes⟩
    · intro i inside
      obtain ⟨room, word⟩ := getElem_words inside
      exact ⟨room, by rw [word, Word.toNat_ofBytes]⟩
    · intro ws tail rest written
      rw [written, words_ofWords ws (Nat.lt_succ_of_le rest)]

/-- Two words in three reads, one of them interrupted, with a byte too many, and a failure that
comes after the end. -/
theorem load_conforms_split :
    let image : List Delivery :=
      [.chunk [0xD0], .interrupted, .chunk [0, 0, 7, 0x70, 0], .chunk [0, 0, 0xAB], .chunk [],
        .failure "late"]
    (Delivery.content image).length / 4 < 2 ^ 32 - 1 ∧
      (∀ text, image.find? Delivery.isFinal ≠ some (.failure text)) ∧
      Delivery.content image = ofWords [0xD0000007, 0x70000000] ++ [0xAB] ∧
      ∃ program : Segment, (load image true).1 = .ok ⟨#[some program], []⟩ ∧
        program.toList = [0xD0000007, 0x70000000] := by
  intro image
  have short : (Delivery.content image).length / 4 < 2 ^ 32 - 1 := by decide
  have ends : ∀ text, image.find? Delivery.isFinal ≠ some (.failure text) := by
    intro text
    simp [image, Delivery.isFinal]
  have written : Delivery.content image = ofWords [0xD0000007, 0x70000000] ++ [0xAB] := by decide
  obtain ⟨program, loaded, -, -, again, -⟩ := (load_conforms short).2 ends
  exact ⟨short, ends, written, program, loaded, again _ _ (by decide) written⟩

end Image

end UniversalMachine
