import UniversalMachine.Proofs.KnownProgram
import UniversalMachine.Proofs.Programs

/-!
# The echo program

A program reads a byte and writes it a number of times, then reads once more and halts. While the
input lasts, a round passes its next byte to the output. A round after the end reads the word that
stands for the end. That word is no byte, so it depends on the configuration whether the program
fails there or writes the low bits of the word in each round that is left.
-/

namespace UniversalMachine

open Delivery (giving)

/-! ## The rounds -/

namespace Scene

variable {policy : OutputPolicy} {scene seen : Scene}
variable {answers : List Delivery.ByteAnswer} {answer : Option UInt8}

theorem after_input (head : scene.answers.headD (.ok none) = .ok answer) (target : Register) :
    scene.after policy (.input target) =
      some ⟨scene.registers.put target (inputWord answer), scene.answers.tail, scene.written⟩ := by
  simp only [after, head, put]

theorem through_read {block : List Instruction} (before : scene.through policy block = some seen)
    (head : seen.answers.headD (.ok none) = .ok answer) (target : Register) :
    scene.through policy (block ++ [.input target]) =
      some ⟨seen.registers.put target (inputWord answer), seen.answers.tail, seen.written⟩ := by
  rw [through_append before, through_cons (after_input head target)]
  rfl

/-- A round reads what the input answers and writes it, if that may be written. -/
theorem through_echoRound (registers : Registers) (written : List UInt8) {byte : UInt8}
    (head : answers.headD (.ok none) = .ok answer)
    (allowed : policy.byte? (inputWord answer) = some byte) :
    through policy ⟨registers, answers, written⟩ echoRound =
      some ⟨registers.put 1 (inputWord answer), answers.tail, written ++ [byte]⟩ := by
  have wrote : after policy ⟨registers.put 1 (inputWord answer), answers.tail, written⟩
      (.output 1) =
      some ⟨registers.put 1 (inputWord answer), answers.tail, written ++ [byte]⟩ := by
    simp only [after, Registers.get_put, if_true, allowed, Option.map_some]
  rw [echoRound, through_cons (after_input head 1), through_cons wrote]
  rfl

/-- As many rounds as there are bytes pass all of them. -/
theorem through_rounds_giving (policy : OutputPolicy) (registers : Registers)
    (written bytes : List UInt8) (more : List Delivery.ByteAnswer) :
    ∃ last, through policy ⟨registers, giving bytes ++ more, written⟩
        (repeated bytes.length echoRound) =
      some ⟨last, more, written ++ bytes⟩ := by
  induction bytes generalizing registers written with
  | nil => exact ⟨registers, by rw [List.append_nil]; rfl⟩
  | cons byte rest ih =>
      have allowed : policy.byte? (inputWord (some byte)) = some byte :=
        OutputPolicy.byte?_eq_some_iff.mpr ⟨.inl byte.toNat_lt, by simp [inputWord]⟩
      have head : (giving (byte :: rest) ++ more).headD (.ok none) = .ok (some byte) := rfl
      have round := through_echoRound registers written head allowed
      obtain ⟨last, rounds⟩ := ih (registers.put 1 (inputWord (some byte))) (written ++ [byte])
      refine ⟨last, ?_⟩
      rw [List.length_cons, repeated_succ, through_append round, List.append_cons written byte rest]
      exact rounds

/-- After the end, each round writes the low bits of the word that stands for it. -/
theorem through_rounds_ended (registers : Registers) (written : List UInt8) (count ends : Nat) :
    ∃ last left, through .truncate ⟨registers, List.replicate ends (.ok none), written⟩
        (repeated count echoRound) =
      some ⟨last, List.replicate left (.ok none), written ++ List.replicate count 0xFF⟩ := by
  induction count generalizing registers ends written with
  | zero => exact ⟨registers, ends, by rw [List.replicate_zero, List.append_nil]; rfl⟩
  | succ count ih =>
      have head : (List.replicate ends (.ok none : Delivery.ByteAnswer)).headD (.ok none) =
          .ok none := Delivery.headD_giving [] ends
      have low : OutputPolicy.truncate.byte? (inputWord none) = some 0xFF := by decide
      have round := through_echoRound registers written head low
      obtain ⟨last, left, rounds⟩ :=
        ih (registers.put 1 (inputWord none)) (written ++ [0xFF]) (ends - 1)
      refine ⟨last, left, ?_⟩
      rw [List.tail_replicate] at round
      rw [repeated_succ, through_append round, List.replicate_succ,
        List.append_cons written 0xFF (List.replicate count 0xFF)]
      exact rounds

theorem through_rounds_take {bytes : List UInt8} {count : Nat} (enough : count ≤ bytes.length)
    (policy : OutputPolicy) (registers : Registers) (written : List UInt8)
    (more : List Delivery.ByteAnswer) :
    ∃ last, through policy ⟨registers, giving bytes ++ more, written⟩ (repeated count echoRound) =
      some ⟨last, giving (bytes.drop count) ++ more, written ++ bytes.take count⟩ := by
  have rounds := through_rounds_giving policy registers written (bytes.take count)
    (giving (bytes.drop count) ++ more)
  rwa [List.length_take_of_le enough, ← List.append_assoc, ← Delivery.giving_append,
    List.take_append_drop] at rounds

theorem through_rounds_pad {bytes : List UInt8} {count : Nat} (short : bytes.length ≤ count)
    (registers : Registers) (written : List UInt8) (ends : Nat) :
    ∃ last left, through .truncate
        ⟨registers, giving bytes ++ List.replicate ends (.ok none), written⟩
        (repeated count echoRound) =
      some ⟨last, List.replicate left (.ok none),
        written ++ bytes ++ List.replicate (count - bytes.length) 0xFF⟩ := by
  obtain ⟨between, rounds⟩ :=
    through_rounds_giving .truncate registers written bytes (List.replicate ends (.ok none))
  obtain ⟨last, left, rest⟩ :=
    through_rounds_ended between (written ++ bytes) (count - bytes.length) ends
  refine ⟨last, left, ?_⟩
  rw [← rest, ← through_append rounds, ← repeated_add, Nat.add_sub_cancel' short]

end Scene

/-! ## The run -/

namespace Machine

variable {machine : Machine} {policy : OutputPolicy} {scene seen : Scene} {count done : Nat}

/-- A machine that gets through all rounds reads once more and halts. -/
theorem Stands.echo_halts {answer : Option UInt8}
    (stands : Stands (echo count) policy machine 0 scene)
    (rounds : scene.through policy (repeated count echoRound) = some seen)
    (head : seen.answers.headD (.ok none) = .ok answer) :
    ∃ final, RunsThrough machine (echo count) .halted final ∧ final.word 2 = inputWord answer ∧
      final.channels.output = seen.written := by
  have listed : repeated count echoRound ++ [.input 2] <+: (echo count).drop 0 :=
    ⟨[.halt], by simp [echo]⟩
  obtain ⟨last, executes, at_end⟩ := stands.through listed (Scene.through_read rounds head 2)
  obtain ⟨final, through, registers, output⟩ := at_end.halt executes (by simp [echo])
  rw [List.append_assoc] at through
  refine ⟨final, through, ?_, output⟩
  rw [word, registers, Registers.get_put, if_pos rfl]

/-- A machine that finds the input at its end before the last round fails in that round, if it may
only write bytes. -/
theorem Stands.echo_refuses (stands : Stands (echo count) .reject machine 0 scene)
    (before : done < count)
    (rounds : scene.through .reject (repeated done echoRound) = some seen)
    (head : seen.answers.headD (.ok none) = .ok none) :
    ∃ final, RunsThrough machine (repeated done echoRound ++ echoRound)
        (.failed (.outputOutOfRange endOfInput)) final ∧
      final.channels.output = seen.written := by
  obtain ⟨more, rfl⟩ := Nat.exists_eq_add_of_lt before
  -- The round that fails stands between those that are done and those that are left.
  have split : echo (done + more + 1) = (repeated done echoRound ++ [.input 1]) ++
      .output 1 :: (repeated more echoRound ++ [.input 2, .halt]) := by
    rw [echo, Nat.add_assoc, repeated_add, repeated_succ, echoRound]
    simp
  have listed : repeated done echoRound ++ [.input 1] <+: (echo (done + more + 1)).drop 0 := by
    rw [split]
    exact List.prefix_append _ _
  obtain ⟨last, executes, at_output⟩ := stands.through listed (Scene.through_read rounds head 1)
  have output : (echo (done + more + 1))[0 + (repeated done echoRound ++ [Instr.input 1]).length]? =
      some (.output 1) := by
    rw [split, Nat.zero_add, List.getElem?_append_right (Nat.le_refl _), Nat.sub_self]
    rfl
  have read : (seen.registers.put 1 (inputWord none)).get 1 = endOfInput := by
    rw [Registers.get_put, if_pos rfl, inputWord]
  have refused : OutputPolicy.reject.byte? endOfInput = none := by decide
  obtain ⟨final, through, output⟩ := at_output.refuse executes output (read ▸ refused)
  rw [List.append_assoc, read] at through
  exact ⟨final, through, output⟩

/-- The law of the echo program. If the input has a byte for every round, the run writes as many
bytes of the input as there are rounds, and the last read leaves the next byte in its register, or
the greatest word at the end. If the input is shorter, the run writes all of it. Then the word that
stands for the end either fails the run in the next round, or each round that is left writes the low
eight bits of it. -/
theorem echo_run (count : Nat) (short : 2 * count + 2 < 2 ^ 32 - 1) :
    ∃ words : List Word,
      (echo count).map (fun instruction => (instruction.rename Fin.val).encode) = words.map .ok ∧
      ∀ (image : List Delivery) (bytes : List UInt8) (channels : Channels) (config : Config),
        Delivery.readAll image = .ok (Image.ofWords words) →
        Delivery.Supplies channels.input bytes → channels.Reliable → channels.output = [] →
        config.stepLimit = none → config.hasMemory 0 →
        ∃ machine events, ofImage image channels config = (.ok machine, events) ∧
          (count ≤ bytes.length → ∃ final,
            (∀ budget, 2 * count + 2 ≤ budget → machine.run budget = some (.halted, final)) ∧
            final.profile.steps = 2 * count + 2 ∧
            final.channels.output = bytes.take count ∧
            (∀ byte, bytes[count]? = some byte → (final.word 2).toNat = byte.toNat) ∧
            (bytes.length = count → final.word 2 = 0xFFFFFFFF)) ∧
          (bytes.length < count → config.outputPolicy = .reject → ∃ final,
            (∀ budget, 2 * bytes.length + 2 ≤ budget →
              machine.run budget = some (.failed (.outputOutOfRange 0xFFFFFFFF), final)) ∧
            final.profile.steps = 2 * bytes.length + 2 ∧
            final.channels.output = bytes) ∧
          (bytes.length < count → config.outputPolicy = .truncate → ∃ final,
            (∀ budget, 2 * count + 2 ≤ budget → machine.run budget = some (.halted, final)) ∧
            final.profile.steps = 2 * count + 2 ∧
            final.channels.output = bytes ++ List.replicate (count - bytes.length) 0xFF ∧
            final.word 2 = 0xFFFFFFFF) := by
  obtain ⟨words, assembled⟩ := Listing.exists_words
    fun out value mem => absurd mem (loadImmediate_notMem_echo count out value)
  refine ⟨words, assembled, ?_⟩
  intro image bytes channels config read supplies reliable silent stepLimit memory
  rw [← length_echo] at short
  obtain ⟨machine, events, loaded, fresh, stands⟩ :=
    stands_ofImage assembled short read reliable stepLimit memory
  obtain ⟨ends, answers⟩ := supplies
  rw [answers, silent] at stands
  refine ⟨machine, events, loaded, ?_, ?_, ?_⟩
  · intro enough
    obtain ⟨last, rounds⟩ := Scene.through_rounds_take enough config.outputPolicy .zeroed []
      (List.replicate ends (.ok none))
    obtain ⟨final, through, word, output⟩ := stands.echo_halts rounds (Delivery.headD_giving _ _)
    obtain ⟨run, steps⟩ := through.of_fresh fresh (length_echo count)
    rw [List.head?_drop] at word
    refine ⟨final, run, steps, output, ?_, ?_⟩
    · intro byte next
      rw [word, next]
      exact UInt8.toNat_toUInt32 byte
    · intro all
      rw [word, List.getElem?_eq_none (Nat.le_of_eq all)]
      rfl
  · intro before reject
    rw [reject] at stands
    obtain ⟨last, rounds⟩ := Scene.through_rounds_giving .reject .zeroed [] bytes
      (List.replicate ends (.ok none))
    obtain ⟨final, through, output⟩ :=
      stands.echo_refuses before rounds (Delivery.headD_giving [] ends)
    have length : (repeated bytes.length echoRound ++ echoRound).length = 2 * bytes.length + 2 := by
      rw [List.length_append, length_repeated, Nat.mul_comm]
      rfl
    obtain ⟨run, steps⟩ := through.of_fresh fresh length
    exact ⟨final, run, steps, output⟩
  · intro before truncate
    rw [truncate] at stands
    obtain ⟨last, left, rounds⟩ :=
      Scene.through_rounds_pad (Nat.le_of_lt before) .zeroed [] ends
    obtain ⟨final, through, word, output⟩ :=
      stands.echo_halts rounds (Delivery.headD_giving [] left)
    obtain ⟨run, steps⟩ := through.of_fresh fresh (length_echo count)
    exact ⟨final, run, steps, output, word⟩

/-- Two rounds on two bytes, and on one byte under either policy. -/
theorem echo_run_twice :
    ∃ words : List Word,
      (echo 2).map (fun instruction => (instruction.rename Fin.val).encode) = words.map .ok ∧
      let image : List Delivery := [.chunk (Image.ofWords words)]
      (∃ machine events final,
        ofImage image { input := [.chunk [111], .interrupted, .chunk [107]] } {} =
          (.ok machine, events) ∧
        machine.run 6 = some (.halted, final) ∧ final.channels.output = [111, 107] ∧
        final.word 2 = 0xFFFFFFFF) ∧
      (∃ machine events final,
        ofImage image { input := [.chunk [111]] } {} = (.ok machine, events) ∧
        machine.run 4 = some (.failed (.outputOutOfRange 0xFFFFFFFF), final) ∧
        final.channels.output = [111]) ∧
      ∃ machine events final,
        ofImage image { input := [.chunk [111]] } { outputPolicy := .truncate } =
          (.ok machine, events) ∧
        machine.run 6 = some (.halted, final) ∧ final.channels.output = [111, 255] ∧
        final.word 2 = 0xFFFFFFFF := by
  obtain ⟨words, assembled, law⟩ := echo_run 2 (by decide)
  have read := Delivery.readAll_singleton (Image.ofWords words)
  have reliable (input : List Delivery) : Channels.Reliable { input } := ⟨nofun, nofun⟩
  refine ⟨words, assembled, ?_, ?_, ?_⟩
  · obtain ⟨machine, events, loaded, enough, -, -⟩ :=
      law _ [111, 107] { input := [.chunk [111], .interrupted, .chunk [107]] } {} read ⟨0, rfl⟩
        (reliable _) rfl rfl rfl
    obtain ⟨final, run, -, output, -, last⟩ := enough (by decide)
    exact ⟨machine, events, final, loaded, run 6 (by decide), output, last rfl⟩
  · obtain ⟨machine, events, loaded, -, rejects, -⟩ :=
      law _ [111] { input := [.chunk [111]] } {} read ⟨0, rfl⟩ (reliable _) rfl rfl rfl
    obtain ⟨final, run, -, output⟩ := rejects (by decide) rfl
    exact ⟨machine, events, final, loaded, run 4 (by decide), output⟩
  · obtain ⟨machine, events, loaded, -, -, truncates⟩ :=
      law _ [111] { input := [.chunk [111]] } { outputPolicy := .truncate } read ⟨0, rfl⟩
        (reliable _) rfl rfl rfl
    obtain ⟨final, run, -, output, last⟩ := truncates (by decide) rfl
    exact ⟨machine, events, final, loaded, run 6 (by decide), output, last⟩

end Machine

end UniversalMachine
