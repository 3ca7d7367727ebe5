import UniversalMachine.Proofs.KnownProgram
import UniversalMachine.Proofs.Programs

/-!
# A counted loop

A program counts a register down to zero by adding the greatest word, and writes a word that counts
up from `A`. At the end of a round it moves the start of the loop over the address behind the loop,
unless nothing is left to count, and jumps to what it has then. Each round ends with that jump, the
last one too.

The loop writes one byte a round. It goes on like this for as long as it may write the word: to the
end if the configuration takes the low bits of every word, and else for 191 rounds.
-/

namespace UniversalMachine

/-! ## The invariant -/

variable {count rounds : Nat} {policy : OutputPolicy} {scene : Scene}

/-- The bytes that count up from `A`, over the greatest byte to zero. -/
def letters (rounds : Nat) : List UInt8 :=
  (List.range rounds).map fun i => .ofNat (65 + i)

theorem toNat_letters (rounds : Nat) :
    (letters rounds).map UInt8.toNat = (List.range rounds).map fun i => (65 + i) % 256 := by
  rw [letters, List.map_map]
  exact List.map_congr_left fun i _ => UInt8.toNat_ofNat'

/-- They are what they count up to where they leave the bytes. -/
theorem toNat_letters_of_le (le : 65 + rounds ≤ 256) :
    (letters rounds).map UInt8.toNat = List.range' 65 rounds := by
  rw [toNat_letters, List.range'_eq_map_range]
  apply List.map_congr_left
  intro i mem
  have before := List.mem_range.mp mem
  exact Nat.mod_eq_of_lt (by omega)

/-- What the program can tell after so many rounds of so many that it counts. -/
structure AtRound (count rounds : Nat) (scene : Scene) : Prop where
  zero : scene.registers.get 0 = 0
  left : scene.registers.get 1 = .ofNat (count - rounds)
  letter : scene.registers.get 2 = .ofNat (65 + rounds)
  minusOne : scene.registers.get 3 = 0xFFFFFFFF
  start : scene.registers.get 4 = 5
  one : scene.registers.get 5 = 1
  written : scene.written = letters rounds

/-- Where the machine is after so many rounds: at the start of the loop, or behind it. -/
def loopPosition (count rounds : Nat) : Nat :=
  if rounds < count then 5 else 11

/-- The word of a round may be written if it is a byte, or if only its low bits are. -/
theorem AtRound.byte? (at_round : AtRound count rounds scene)
    (allowed : 65 + rounds < 256 ∨ policy = .truncate) :
    policy.byte? (scene.registers.get 2) = some (.ofNat (65 + rounds)) := by
  rw [at_round.letter, OutputPolicy.byte?_eq_some_iff]
  refine ⟨allowed.imp_left fun small => ?_, (UInt32.toUInt8_ofNat' _).symm⟩
  exact Nat.lt_of_le_of_lt (Nat.mod_le _ _) small

/-- The register of the address has no part in the invariant. -/
theorem AtRound.put (at_round : AtRound count rounds scene) (word : Word) :
    AtRound count rounds (scene.put 7 word) := by
  constructor <;> simp [Scene.put, at_round.zero, at_round.left, at_round.letter,
    at_round.minusOne, at_round.start, at_round.one, at_round.written]

/-- Adding the greatest word takes one away. -/
theorem AtRound.left_succ (at_round : AtRound count rounds scene) (before : rounds < count) :
    scene.registers.get 1 + scene.registers.get 3 = .ofNat (count - (rounds + 1)) := by
  obtain ⟨more, rfl⟩ := Nat.exists_eq_add_of_lt before
  have now : rounds + more + 1 - rounds = more + 1 := by omega
  have next : rounds + more + 1 - (rounds + 1) = more := by omega
  rw [at_round.left, at_round.minusOne, now, next, UInt32.ofNat_add, UInt32.add_assoc]
  exact UInt32.add_zero _

theorem AtRound.letter_succ (at_round : AtRound count rounds scene) :
    scene.registers.get 2 + scene.registers.get 5 = .ofNat (65 + (rounds + 1)) := by
  rw [at_round.letter, at_round.one, ← Nat.add_assoc, UInt32.ofNat_add (65 + rounds)]
  rfl

/-- The address behind the loop stays only if nothing is left to count. -/
theorem AtRound.choose (at_round : AtRound count rounds scene) (short : count < 2 ^ 25)
    (behind : scene.registers.get 7 = 11) :
    ∃ seen, scene.after policy (.conditionalMove 7 4 1) = some seen ∧ AtRound count rounds seen ∧
      (seen.registers.get 7).toNat = loopPosition count rounds := by
  rw [loopPosition]
  by_cases more : rounds < count
  · have nonzero : scene.registers.get 1 ≠ 0 := by
      intro zero
      have small : count - rounds < UInt32.size :=
        Nat.lt_of_le_of_lt (Nat.sub_le _ _) (Nat.lt_trans short (by decide))
      rw [at_round.left, ← UInt32.toNat_inj, UInt32.toNat_ofNat_of_lt' small] at zero
      exact Nat.sub_ne_zero_of_lt more zero
    refine ⟨scene.put 7 5, ?_, at_round.put 5, ?_⟩
    · rw [Scene.after, if_neg nonzero, at_round.start]
    · rw [Scene.put, Registers.get_put, if_pos rfl, if_pos more]
      rfl
  · have zero : scene.registers.get 1 = 0 := by
      rw [at_round.left, Nat.sub_eq_zero_of_le (Nat.le_of_not_lt more)]
      rfl
    refine ⟨scene, ?_, at_round, ?_⟩
    · rw [Scene.after, if_pos zero]
    · rw [behind, if_neg more]
      rfl

/-- A round writes one more byte, counts, and chooses where to go on. -/
theorem AtRound.through_loopBody (at_round : AtRound count rounds scene) (before : rounds < count)
    (short : count < 2 ^ 25) (allowed : 65 + rounds < 256 ∨ policy = .truncate) :
    ∃ seen, scene.through policy loopBody = some seen ∧ AtRound count (rounds + 1) seen ∧
      (seen.registers.get 7).toNat = loopPosition count (rounds + 1) := by
  -- What the program can tell when it comes to the choice.
  let counted : Scene :=
    { registers := ((scene.registers.put 2 (.ofNat (65 + (rounds + 1)))).put 1
        (.ofNat (count - (rounds + 1)))).put 7 11
      answers := scene.answers
      written := scene.written ++ [.ofNat (65 + rounds)] }
  have goes_on : scene.through policy loopBody =
      counted.through policy [.conditionalMove 7 4 1] := by
    simp [loopBody, Scene.through, Scene.after, Scene.put, at_round.byte? allowed,
      at_round.letter_succ, at_round.left_succ before, counted]
  have at_next : AtRound count (rounds + 1) counted := by
    constructor
    case written =>
      rw [letters, List.range_succ, List.map_append, ← letters, ← at_round.written]
      rfl
    all_goals simp [counted, at_round.zero, at_round.minusOne, at_round.start, at_round.one]
  have behind : counted.registers.get 7 = 11 := by simp [counted]
  obtain ⟨seen, chosen, at_round, address⟩ := at_next.choose short behind
  exact ⟨seen, goes_on.trans (Scene.through_cons chosen []), at_round, address⟩

/-- The setup makes the machine ready for the first round. -/
theorem through_loopSetup (answers : List Delivery.ByteAnswer) :
    ∃ seen, Scene.through policy ⟨.zeroed, answers, []⟩ (loopSetup count) = some seen ∧
      AtRound count 0 seen := by
  have zeroed (register : Register) : Registers.zeroed.get register = 0 := by
    exact Vector.getElem_replicate register.isLt
  have greatest : (-1 : Word) = 0xFFFFFFFF := rfl
  refine ⟨_, rfl, ?_⟩
  constructor
  case written => rfl
  all_goals simp [Scene.put, zeroed, greatest]

/-! ## The run -/

namespace Machine

variable {machine : Machine}

/-- One round of the loop, from its start to where the jump leads. -/
theorem Stands.one_round (stands : Stands (countedLoop count) policy machine 5 scene)
    (at_round : AtRound count rounds scene) (before : rounds < count) (short : count < 2 ^ 25)
    (allowed : 65 + rounds < 256 ∨ policy = .truncate) :
    ∃ next seen, Executes machine loopRound next ∧
      Stands (countedLoop count) policy next (loopPosition count (rounds + 1)) seen ∧
      AtRound count (rounds + 1) seen := by
  obtain ⟨seen, goes_on, at_next, address⟩ := at_round.through_loopBody before short allowed
  have listed : loopBody <+: (countedLoop count).drop 5 := ⟨[.loadProgram 0 7, .halt], rfl⟩
  obtain ⟨between, body, at_jump⟩ := stands.through listed goes_on
  obtain ⟨next, jump, there⟩ := at_jump.jump rfl at_next.zero
  rw [address] at there
  exact ⟨next, seen, body.append jump, there, at_next⟩

/-- The loop goes on for as long as it counts and may write. -/
theorem Stands.many_rounds {answers : List Delivery.ByteAnswer} (rounds : Nat)
    (stands : Stands (countedLoop count) policy machine 0 ⟨.zeroed, answers, []⟩)
    (positive : 1 ≤ count) (short : count < 2 ^ 25) (le : rounds ≤ count)
    (allowed : 65 + rounds ≤ 256 ∨ policy = .truncate) :
    ∃ next seen, Executes machine (loopSetup count ++ repeated rounds loopRound) next ∧
      Stands (countedLoop count) policy next (loopPosition count rounds) seen ∧
      AtRound count rounds seen := by
  -- By the invariant there is something left to count before every round, so it starts at the start
  -- of the loop and not behind it.
  induction rounds with
  | zero =>
      obtain ⟨seen, goes_on, at_round⟩ := through_loopSetup answers
      have listed : loopSetup count <+: (countedLoop count).drop 0 :=
        ⟨loopRound ++ [.halt], rfl⟩
      obtain ⟨next, setup, there⟩ := stands.through listed goes_on
      refine ⟨next, seen, setup, ?_, at_round⟩
      rw [loopPosition, if_pos (Nat.lt_of_succ_le positive)]
      exact there
  | succ rounds ih =>
      have still_allowed : 65 + rounds ≤ 256 ∨ policy = .truncate :=
        allowed.imp_left Nat.le_of_succ_le
      obtain ⟨between, scene, before, there, at_round⟩ := ih (Nat.le_of_succ_le le) still_allowed
      rw [loopPosition, if_pos (Nat.lt_of_succ_le le)] at there
      obtain ⟨next, seen, round, behind, at_next⟩ :=
        there.one_round at_round (Nat.lt_of_succ_le le) short allowed
      refine ⟨next, seen, ?_, behind, at_next⟩
      rw [repeated_add, repeated_one, ← List.append_assoc]
      exact before.append round

/-- If all rounds may write, the run counts down to the halt. -/
theorem Stands.countedLoop_halts {answers : List Delivery.ByteAnswer}
    (stands : Stands (countedLoop count) policy machine 0 ⟨.zeroed, answers, []⟩)
    (positive : 1 ≤ count) (short : count < 2 ^ 25)
    (allowed : policy = .truncate ∨ count ≤ 191) :
    ∃ final, RunsThrough machine (looped count count .halt) .halted final ∧
      final.channels.output = letters count := by
  have all_allowed : 65 + count ≤ 256 ∨ policy = .truncate :=
    allowed.symm.imp_left (Nat.add_le_add_left · 65)
  obtain ⟨last, seen, executes, behind, at_round⟩ :=
    stands.many_rounds count positive short (Nat.le_refl count) all_allowed
  rw [loopPosition, if_neg (Nat.lt_irrefl count)] at behind
  obtain ⟨final, through, -, output⟩ := behind.halt executes rfl
  exact ⟨final, through, output.trans at_round.written⟩

/-- If only bytes may be written, the run fails in round 192. -/
theorem Stands.countedLoop_refuses {answers : List Delivery.ByteAnswer}
    (stands : Stands (countedLoop count) .reject machine 0 ⟨.zeroed, answers, []⟩)
    (short : count < 2 ^ 25) (many : 192 ≤ count) :
    ∃ final, RunsThrough machine (looped count 191 (.output 2))
        (.failed (.outputOutOfRange 256)) final ∧
      final.channels.output = letters 191 := by
  have positive : 1 ≤ count := Nat.le_trans (by decide) many
  obtain ⟨last, seen, executes, at_output, at_round⟩ :=
    stands.many_rounds 191 positive short (Nat.le_of_lt many) (.inl (by decide))
  rw [loopPosition, if_pos (Nat.lt_of_succ_le many)] at at_output
  have word : seen.registers.get 2 = 256 := at_round.letter
  have refused : OutputPolicy.reject.byte? 256 = none := by decide
  obtain ⟨final, through, output⟩ := at_output.refuse executes rfl (word ▸ refused)
  rw [word] at through
  exact ⟨final, through, output.trans at_round.written⟩

/-- The law of the counted loop. If the low bits of every word are written or there are at most 191
rounds, the run halts after six steps for each round, five before them and one behind, and each
round has written a byte and jumped once. Otherwise it fails with the first word that is no byte,
after all bytes from `A` to the greatest. -/
theorem countedLoop_run (count : Nat) (positive : 1 ≤ count) (short : count < 2 ^ 25) :
    ∃ words : List Word,
      (countedLoop count).map (fun instruction => (instruction.rename Fin.val).encode) =
        words.map .ok ∧
      ∀ (image : List Delivery) (channels : Channels) (config : Config),
        Delivery.readAll image = .ok (Image.ofWords words) → channels.Reliable →
        channels.output = [] → config.stepLimit = none → config.hasMemory 0 →
        ∃ machine events, ofImage image channels config = (.ok machine, events) ∧
          (config.outputPolicy = .truncate ∨ count ≤ 191 → ∃ final,
            (∀ budget, 5 + 6 * count + 1 ≤ budget →
              machine.run budget = some (.halted, final)) ∧
            final.profile.steps = 5 + 6 * count + 1 ∧
            final.profile.count .loadProgram = count ∧ final.profile.count .output = count ∧
            final.channels.output.map UInt8.toNat =
              (List.range count).map fun i => (65 + i) % 256) ∧
          (config.outputPolicy = .reject → 192 ≤ count → ∃ final,
            (∀ budget, 5 + 6 * 191 + 1 ≤ budget →
              machine.run budget = some (.failed (.outputOutOfRange 256), final)) ∧
            final.channels.output.map UInt8.toNat = List.range' 65 191) := by
  obtain ⟨words, assembled⟩ := Listing.exists_words (values_fit short)
  refine ⟨words, assembled, ?_⟩
  intro image channels config read reliable silent stepLimit memory
  have room : (countedLoop count).length < 2 ^ 32 - 1 := by
    rw [length_countedLoop]
    decide
  obtain ⟨machine, events, loaded, fresh, stands⟩ :=
    stands_ofImage assembled room read reliable stepLimit memory
  rw [silent] at stands
  refine ⟨machine, events, loaded, ?_, ?_⟩
  · intro allowed
    obtain ⟨final, through, output⟩ := stands.countedLoop_halts positive short allowed
    obtain ⟨run, steps⟩ := through.of_fresh fresh (length_looped count count .halt)
    refine ⟨final, run, steps, ?_, ?_, ?_⟩
    · rw [through.count_of_fresh fresh, count_looped count count (.inl rfl)]
    · rw [through.count_of_fresh fresh, count_looped count count (.inr rfl)]
    · rw [output, toNat_letters]
  · intro reject many
    rw [reject] at stands
    obtain ⟨final, through, output⟩ := stands.countedLoop_refuses short many
    obtain ⟨run, -⟩ := through.of_fresh fresh (length_looped count 191 (.output 2))
    refine ⟨final, run, ?_⟩
    rw [output, toNat_letters_of_le (by decide)]

/-- Three rounds write the first letters, and 200 are too many for bytes. -/
theorem countedLoop_run_letters :
    (∃ words machine events final,
      (countedLoop 3).map (fun instruction => (instruction.rename Fin.val).encode) =
        words.map .ok ∧
      ofImage [.chunk (Image.ofWords words)] { input := [] } {} = (.ok machine, events) ∧
      machine.run 24 = some (.halted, final) ∧ final.profile.count .loadProgram = 3 ∧
      final.channels.output.map UInt8.toNat = [65, 66, 67]) ∧
    ∃ words machine events final,
      (countedLoop 200).map (fun instruction => (instruction.rename Fin.val).encode) =
        words.map .ok ∧
      ofImage [.chunk (Image.ofWords words)] { input := [] } {} = (.ok machine, events) ∧
      machine.run 1152 = some (.failed (.outputOutOfRange 256), final) ∧
      final.channels.output.map UInt8.toNat = List.range' 65 191 := by
  have reliable : Channels.Reliable { input := [] } := ⟨nofun, nofun⟩
  constructor
  · obtain ⟨words, assembled, law⟩ := countedLoop_run 3 (by decide) (by decide)
    obtain ⟨machine, events, loaded, halts, -⟩ :=
      law _ { input := [] } {} (Delivery.readAll_singleton _) reliable rfl rfl rfl
    obtain ⟨final, run, -, jumps, -, output⟩ := halts (.inr (by decide))
    exact ⟨words, machine, events, final, assembled, loaded, run 24 (by decide), jumps, output⟩
  · obtain ⟨words, assembled, law⟩ := countedLoop_run 200 (by decide) (by decide)
    obtain ⟨machine, events, loaded, -, refuses⟩ :=
      law _ { input := [] } {} (Delivery.readAll_singleton _) reliable rfl rfl rfl
    obtain ⟨final, run, output⟩ := refuses rfl (by decide)
    exact ⟨words, machine, events, final, assembled, loaded, run 1152 (by decide), output⟩

end Machine

end UniversalMachine
