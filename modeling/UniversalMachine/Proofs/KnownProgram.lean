import UniversalMachine.Proofs.Ending
import UniversalMachine.Proofs.Executed
import UniversalMachine.Proofs.ListedProgram
import UniversalMachine.Proofs.ReliableDevices

/-!
# Running a known program

A machine whose program encodes a list of instructions executes the instruction in whose place it
stands. What it executes on the way from one place to another is a list again, and the lists of two
ways one after the other are put together. The list tells how many steps were taken and what the
profile has counted.

On devices that never fail, a program that leaves the store alone can tell no more than its
registers, the input and the output. A straight piece of it changes these instruction by
instruction, and the machine then stands behind the piece.
-/

namespace UniversalMachine

/-! ## Programs that can be encoded -/

/-- All but an immediate value fits the slots of a word. -/
theorem Instruction.fits_rename {instruction : Instruction}
    (short : ∀ out value, instruction = .loadImmediate out value → value.toNat < 2 ^ 25) :
    (instruction.rename Fin.val).Fits := by
  cases instruction with
  | loadImmediate out value =>
      have value_fits := short out value rfl
      simpa [Instr.Fits, Instr.entries, Instr.values, Instr.rename, Instr.opcode, Opcode.slots,
        Slot.target, Slot.immediate] using value_fits
  | _ =>
      simp [Instr.Fits, Instr.entries, Instr.values, Instr.rename, Instr.opcode, Opcode.slots,
        Slot.a, Slot.b, Slot.c]

theorem Listing.exists_words {listing : Listing}
    (short : ∀ out value, .loadImmediate out value ∈ listing → value.toNat < 2 ^ 25) :
    ∃ words : List Word,
      listing.map (fun instruction => (instruction.rename Fin.val).encode) = words.map .ok := by
  induction listing with
  | nil => exact ⟨[], rfl⟩
  | cons instruction rest ih =>
      obtain ⟨words, encoded⟩ := ih fun out value mem => short out value (.tail _ mem)
      have fits : (instruction.rename Fin.val).Fits := Instruction.fits_rename
        fun out value same => short out value (same ▸ .head _)
      exact ⟨_ :: words, congrArg₂ List.cons (Instr.encode_of_fits fits) encoded⟩

namespace Machine

variable {machine middle last : Machine}

/-! ## What is executed on the way -/

/-- The machine executes these instructions one after the other, and then is the other one. -/
inductive Executes : Machine → List Instruction → Machine → Prop where
  | nothing (machine : Machine) : Executes machine [] machine
  | next {machine next last : Machine} {instruction : Instruction} {rest : List Instruction}
      (upcoming : machine.upcoming = .ok instruction)
      (stepped : machine.step = (.ok .running, next)) (later : Executes next rest last) :
      Executes machine (instruction :: rest) last

theorem Executes.append {before since : List Instruction} (first : Executes machine before middle)
    (second : Executes middle since last) : Executes machine (before ++ since) last := by
  induction first with
  | nothing => exact second
  | next upcoming stepped later ih => exact .next upcoming stepped (ih second)

variable {instructions : List Instruction}

/-- Each instruction takes a step. -/
theorem Executes.runsFor (executes : Executes machine instructions last) :
    machine.RunsFor instructions.length ∧ machine.stepped instructions.length = last := by
  induction executes with
  | nothing machine => exact ⟨fun earlier before => absurd before (Nat.not_lt_zero earlier), rfl⟩
  | @next machine next last instruction rest upcoming stepped later ih =>
      obtain ⟨runs, reached⟩ := ih
      rw [List.length_cons, Machine.stepped, stepped]
      refine ⟨?_, reached⟩
      rintro (_ | earlier) before
      · exact congrArg Prod.fst stepped
      · rw [answer_succ, stepped]
        exact runs earlier (Nat.lt_of_succ_lt_succ before)

theorem Executes.count (executes : Executes machine instructions last) (op : Opcode) :
    last.profile.count op =
      machine.profile.count op + (instructions.map Instr.opcode).count op := by
  induction executes with
  | nothing => rfl
  | @next machine next last instruction rest upcoming stepped later ih =>
      have executing := executing?_eq_some_iff.mpr ⟨(step_running stepped).1, upcoming⟩
      have counted := count_of_executing executing op
      rw [stepped] at counted
      rw [ih, counted, List.map_cons, List.count_cons]
      simp only [beq_iff_eq]
      omega

/-- The run of a machine executes these instructions, ends so, and leaves this machine. -/
structure RunsThrough (machine : Machine) (instructions : List Instruction) (ending : Ending)
    (last : Machine) : Prop where
  ends : ∀ budget, instructions.length ≤ budget → machine.run budget = some (ending, last)
  count : ∀ op,
    last.profile.count op = machine.profile.count op + (instructions.map Instr.opcode).count op
  steps : last.profile.steps = machine.profile.steps + instructions.length

/-- A run goes as far as the machine executes instructions, and one further to the instruction that
stops it. -/
theorem Executes.runsThrough {instruction : Instruction} {answer : Except Fault Status}
    {ending : Ending} {stopped final : Machine} (executes : Executes machine instructions last)
    (running : last.status = .running) (upcoming : last.upcoming = .ok instruction)
    (step : last.step = (answer, stopped)) (stops : answer ≠ .ok .running)
    (finished : stopped.finish (answer.map fun _ => ()) = (ending, final)) :
    RunsThrough machine (instructions ++ [instruction]) ending final := by
  obtain ⟨runs, reached⟩ := executes.runsFor
  have stop : machine.answer instructions.length = answer := by
    rw [Machine.answer, reached, step]
  have profile : final.profile = last.profile.record instruction.opcode := by
    have counted := (step_of_upcoming running upcoming).2
    have kept := finish_profile stopped (answer.map fun _ => ())
    rw [step] at counted
    rw [finished] at kept
    exact kept.trans counted
  constructor
  · intro budget enough
    rw [List.length_append] at enough
    have ended := run_of_firstStop runs (stop.symm ▸ stops) (Nat.lt_of_succ_le enough)
    rwa [stop, reached, step, finished] at ended
  · intro op
    rw [profile, Profile.count_record, executes.count instruction.opcode, executes.count op,
      List.map_append, List.count_append, List.map_singleton, List.count_singleton]
    by_cases same : op = instruction.opcode
    · subst same
      simp only [if_true, beq_self_eq_true, Nat.add_assoc]
    · simp [same, Ne.symm same]
  · rw [profile, Profile.steps_record, ← reached, runs.steps.2.2, List.length_append,
      List.length_singleton, Nat.add_assoc]

/-- A machine that has counted nothing yet counts the steps of this run. -/
theorem RunsThrough.of_fresh {ending : Ending} {steps : Nat}
    (through : RunsThrough machine instructions ending last) (fresh : machine.profile = .empty)
    (length : instructions.length = steps) :
    (∀ budget, steps ≤ budget → machine.run budget = some (ending, last)) ∧
      last.profile.steps = steps := by
  subst length
  refine ⟨through.ends, ?_⟩
  rw [through.steps, fresh, Profile.steps_empty, Nat.zero_add]

theorem RunsThrough.count_of_fresh {ending : Ending}
    (through : RunsThrough machine instructions ending last) (fresh : machine.profile = .empty)
    (op : Opcode) : last.profile.count op = (instructions.map Instr.opcode).count op := by
  rw [through.count, fresh, Profile.count_empty, Nat.zero_add]

end Machine

/-! ## What a program can tell -/

/-- The registers and what passes the devices, which is all that a program can tell unless it looks
into the store. -/
structure Scene where
  registers : Registers
  /-- What the input has yet to answer. -/
  answers : List Delivery.ByteAnswer
  /-- What the output has accepted. -/
  written : List UInt8

namespace Scene

def put (scene : Scene) (target : Register) (word : Word) : Scene :=
  { scene with registers := scene.registers.put target word }

/-- What an instruction makes of the scene, if it leaves the store alone and does not fail, and the
next instruction follows. -/
def after (policy : OutputPolicy) (scene : Scene) : Instruction → Option Scene
  | .conditionalMove out src cond =>
    if scene.registers.get cond = 0 then some scene
    else some (scene.put out (scene.registers.get src))
  | .add out left right =>
    some (scene.put out (scene.registers.get left + scene.registers.get right))
  | .multiply out left right =>
    some (scene.put out (scene.registers.get left * scene.registers.get right))
  | .divide out left right =>
    if scene.registers.get right = 0 then none
    else some (scene.put out (scene.registers.get left / scene.registers.get right))
  | .nand out left right =>
    some (scene.put out (~~~(scene.registers.get left &&& scene.registers.get right)))
  | .output val =>
    (policy.byte? (scene.registers.get val)).map fun byte =>
      { scene with written := scene.written ++ [byte] }
  | .input out =>
    match scene.answers.headD (.ok none) with
    | .ok byte? => some { scene.put out (inputWord byte?) with answers := scene.answers.tail }
    | .error _ => none
  | .loadImmediate out value => some (scene.put out value)
  | .load .. | .store .. | .halt | .map .. | .unmap .. | .loadProgram .. => none

/-- What instructions make of the scene one after the other. -/
def through (policy : OutputPolicy) (scene : Scene) (block : List Instruction) : Option Scene :=
  block.foldlM (after policy) scene

variable {policy : OutputPolicy} {scene between : Scene}

theorem through_cons {instruction : Instruction}
    (first : scene.after policy instruction = some between) (rest : List Instruction) :
    scene.through policy (instruction :: rest) = between.through policy rest := by
  rw [through, List.foldlM_cons, first]
  rfl

theorem through_append {block : List Instruction}
    (first : scene.through policy block = some between) (rest : List Instruction) :
    scene.through policy (block ++ rest) = between.through policy rest := by
  rw [through, List.foldlM_append, ← through, first]
  rfl

end Scene

namespace Machine

/-- This is what the program can tell, and the output never fails. -/
structure Shows (machine : Machine) (scene : Scene) : Prop where
  registers : machine.registers = scene.registers
  reliable : machine.channels.Reliable
  answers : Delivery.flatten machine.channels.input = scene.answers
  written : machine.channels.output = scene.written

variable {machine last after next : Machine} {scene seen : Scene} {instruction : Instruction}

theorem Shows.enter (shown : machine.Shows scene) (instruction : Instruction) :
    (machine.enter instruction).Shows scene :=
  ⟨shown.registers, shown.reliable, shown.answers, shown.written⟩

/-- An instruction makes of the machine what it makes of the scene. -/
theorem Shows.execute (shown : machine.Shows scene)
    (goes_on : scene.after machine.config.outputPolicy instruction = some seen) :
    ∃ after, machine.execute instruction = (.ok .advance, after) ∧
      after.store = machine.store ∧ after.Shows seen := by
  obtain ⟨registers, answers, written⟩ := scene
  obtain ⟨rfl, reliable, rfl, rfl⟩ := shown
  cases instruction with
  | conditionalMove out src cond =>
      simp only [Scene.after] at goes_on
      simp only [Machine.execute]
      split at goes_on
      · next zero =>
          cases goes_on
          rw [if_pos zero]
          exact ⟨_, rfl, rfl, rfl, reliable, rfl, rfl⟩
      · next nonzero =>
          cases goes_on
          rw [if_neg nonzero]
          exact ⟨_, rfl, rfl, rfl, reliable, rfl, rfl⟩
  | divide out left right =>
      simp only [Scene.after] at goes_on
      simp only [Machine.execute]
      split at goes_on
      · cases goes_on
      · next nonzero =>
          cases goes_on
          rw [if_neg nonzero]
          exact ⟨_, rfl, rfl, rfl, reliable, rfl, rfl⟩
  | add | multiply | nand | loadImmediate =>
      cases goes_on
      exact ⟨_, rfl, rfl, rfl, reliable, rfl, rfl⟩
  | output val =>
      obtain ⟨byte, allowed, rfl⟩ := Option.map_eq_some_iff.mp goes_on
      obtain ⟨channels, delivered, still, input, output⟩ := reliable.deliver byte
      exact ⟨_, output_of_some allowed delivered, rfl, rfl, still,
        congrArg Delivery.flatten input, output⟩
  | input out =>
      obtain ⟨channels, received, still, input, output⟩ := reliable.receive
      simp only [Scene.after] at goes_on
      split at goes_on
      · next head =>
          cases goes_on
          rw [head] at received
          exact ⟨_, input_of_ok received, rfl, rfl, still, input, output⟩
      · cases goes_on
  | load | store | halt | map | unmap | loadProgram => cases goes_on

/-! ## Where a machine stands -/

/-- The machine runs without a step limit and stands at a position of its program, which encodes
these instructions. -/
structure Stands (listing : Listing) (policy : OutputPolicy) (machine : Machine) (position : Nat)
    (scene : Scene) : Prop where
  running : machine.status = .running
  stepLimit : machine.config.stepLimit = none
  outputPolicy : machine.config.outputPolicy = policy
  program : ∃ words, machine.store.find? .program = some words ∧ listing.Encodes words
  short : listing.length < UInt32.size
  pc : machine.pc.toNat = position
  shown : machine.Shows scene

variable {listing : Listing} {policy : OutputPolicy} {position : Nat}

/-- The instruction at the position is the next one to be executed. -/
theorem Stands.upcoming (stands : Stands listing policy machine position scene)
    (listed : listing[position]? = some instruction) : machine.upcoming = .ok instruction := by
  obtain ⟨words, found, encodes⟩ := stands.program
  have program : machine.store.program = .ok words := Store.segment_of_find? found
  rw [Machine.upcoming, stands.stepLimit]
  simp only [fetch, program, stands.pc]
  obtain ⟨past, -⟩ | ⟨there, word, same, cell, encoded⟩ := encodes.cases position
  · rw [listed] at past
    cases past
  · obtain rfl : instruction = there := Option.some.inj (listed.symm.trans same)
    simp only [cell, Instr.decode_of_encode_rename encoded]

/-- A step that leaves the store alone goes on in the same program. -/
theorem Stands.settled {way : Next} (stands : Stands listing policy machine position scene)
    (executed : (machine.enter instruction).execute instruction = (.ok way, after))
    (kept : after.store = machine.store) (shown : after.Shows seen)
    (settled : after.settle way = (.ok .running, next)) :
    Stands listing policy next next.pc.toNat seen := by
  obtain ⟨-, config, -, status⟩ := (effect_of_execute executed).frame
  rw [settle_running settled]
  constructor
  · exact status.trans stands.running
  · rw [config]
    exact stands.stepLimit
  · rw [config]
    exact stands.outputPolicy
  · rw [kept]
    exact stands.program
  · exact stands.short
  · rfl
  · exact ⟨shown.registers, shown.reliable, shown.answers, shown.written⟩

/-- There is a position behind an instruction of the program. -/
theorem Stands.pc_succ (stands : Stands listing policy machine position scene)
    (listed : listing[position]? = some instruction) :
    (machine.pc + 1).toNat = position + 1 := by
  obtain ⟨inside, -⟩ := List.getElem?_eq_some_iff.mp listed
  have small : machine.pc.toNat + 1 < 2 ^ 32 := by
    rw [stands.pc]
    exact Nat.lt_of_le_of_lt (Nat.succ_le_of_lt inside) stands.short
  rw [UInt32.toNat_add, UInt32.toNat_one, Nat.mod_eq_of_lt small, stands.pc]

/-- An instruction that the next one follows is executed in a step. -/
theorem Stands.advance (stands : Stands listing policy machine position scene)
    (listed : listing[position]? = some instruction)
    (goes_on : scene.after policy instruction = some seen) :
    ∃ next, machine.step = (.ok .running, next) ∧
      Stands listing policy next (position + 1) seen := by
  rw [← stands.outputPolicy] at goes_on
  obtain ⟨after, executed, kept, shown⟩ := (stands.shown.enter instruction).execute goes_on
  have there := stands.settled executed kept shown rfl
  have pc : (after.pc + 1).toNat = position + 1 := by
    rw [(effect_of_execute executed).frame.1]
    exact stands.pc_succ listed
  rw [pc] at there
  exact ⟨_, step_of_executed stands.running (stands.upcoming listed) executed, there⟩

/-- A piece of the program without jumps is executed from its first instruction to its last. -/
theorem Stands.through {block : List Instruction}
    (stands : Stands listing policy machine position scene)
    (listed : block <+: listing.drop position)
    (goes_on : scene.through policy block = some seen) :
    ∃ next, Executes machine block next ∧
      Stands listing policy next (position + block.length) seen := by
  induction block generalizing machine position scene with
  | nil =>
      obtain rfl : scene = seen := Option.some.inj goes_on
      exact ⟨machine, .nothing machine, stands⟩
  | cons instruction rest ih =>
      obtain ⟨since, split⟩ := listed
      have here : listing[position]? = some instruction := by
        rw [← List.head?_drop, ← split]
        rfl
      have behind : rest <+: listing.drop (position + 1) := by
        rw [← List.tail_drop, ← split]
        exact ⟨since, rfl⟩
      obtain ⟨between, first, later⟩ := Option.bind_eq_some_iff.mp goes_on
      obtain ⟨next, stepped, there⟩ := stands.advance here first
      obtain ⟨last, executes, stands_last⟩ := ih there behind later
      refine ⟨last, .next (stands.upcoming here) stepped executes, ?_⟩
      rwa [List.length_cons, Nat.add_comm rest.length, ← Nat.add_assoc]

/-- A jump within the program changes nothing else. -/
theorem Stands.jump {seg target : Register}
    (stands : Stands listing policy machine position scene)
    (listed : listing[position]? = some (.loadProgram seg target))
    (itself : scene.registers.get seg = 0) :
    ∃ next, Executes machine [.loadProgram seg target] next ∧
      Stands listing policy next (scene.registers.get target).toNat scene := by
  have upcoming := stands.upcoming listed
  rw [← stands.shown.registers] at itself ⊢
  have executed : (machine.enter (.loadProgram seg target)).execute (.loadProgram seg target) =
      (.ok (.jump (machine.word target)), machine.enter (.loadProgram seg target)) :=
    if_pos (handle_eq_program_iff.mpr itself)
  have stepped := step_of_executed stands.running upcoming executed
  have there := stands.settled executed rfl (stands.shown.enter _) rfl
  exact ⟨_, .next upcoming stepped (.nothing _), there⟩

/-! ## From the image to the end -/

/-- A machine that is loaded from the words of a program stands at the first instruction and has
counted nothing. -/
theorem stands_ofImage {words : List Word} {image : List Delivery} {channels : Channels}
    {config : Config}
    (assembled : listing.map (fun instruction => (instruction.rename Fin.val).encode) =
      words.map .ok)
    (short : listing.length < 2 ^ 32 - 1)
    (read : Delivery.readAll image = .ok (Image.ofWords words)) (reliable : channels.Reliable)
    (stepLimit : config.stepLimit = none) (memory : config.hasMemory 0) :
    ∃ machine events, ofImage image channels config = (.ok machine, events) ∧
      machine.profile = .empty ∧
      Stands listing config.outputPolicy machine 0
        ⟨.zeroed, Delivery.flatten channels.input, channels.output⟩ := by
  have encodes : listing.Encodes words.toArray := assembled
  have addressable : words.length < UInt32.size := by
    have same := encodes.size_eq
    rw [List.size_toArray] at same
    rw [same]
    exact Nat.lt_trans short (by decide)
  obtain ⟨events, made⟩ := ofImage_of_written read addressable channels memory
  refine ⟨_, events, made, rfl, ?_⟩
  constructor
  · rfl
  · exact stepLimit
  · rfl
  · exact ⟨words.toArray, Store.find?_ofProgram _ .program, encodes⟩
  · exact Nat.lt_trans short (by decide)
  · rfl
  · exact ⟨rfl, reliable, rfl, rfl⟩

variable {instructions : List Instruction}

/-- A run that comes to a halt instruction halts there. -/
theorem Stands.halt (stands : Stands listing policy last position scene)
    (executes : Executes machine instructions last) (listed : listing[position]? = some .halt) :
    ∃ final, RunsThrough machine (instructions ++ [.halt]) .halted final ∧
      final.registers = scene.registers ∧ final.channels.output = scene.written := by
  have upcoming := stands.upcoming listed
  have stepped : last.step = (.ok .halted, (last.enter .halt).stop .halted) :=
    step_of_executed stands.running upcoming rfl
  have through := executes.runsThrough stands.running upcoming stepped nofun
    (finish_of_flushed stands.shown.reliable.flush)
  exact ⟨_, through, stands.shown.registers, (finish_output _ _).trans stands.shown.written⟩

/-- A run that comes to a word which it may not write fails there. -/
theorem Stands.refuse {val : Register} (stands : Stands listing policy last position scene)
    (executes : Executes machine instructions last)
    (listed : listing[position]? = some (.output val))
    (refused : policy.byte? (scene.registers.get val) = none) :
    ∃ final, RunsThrough machine (instructions ++ [.output val])
        (.failed (.outputOutOfRange (scene.registers.get val))) final ∧
      final.channels.output = scene.written := by
  have upcoming := stands.upcoming listed
  rw [← stands.shown.registers, ← stands.outputPolicy] at refused
  rw [← stands.shown.registers]
  have stepped : last.step = (.error (.outputOutOfRange (last.word val)),
      (last.enter (.output val)).stop .failed) :=
    step_of_failed stands.running upcoming (output_of_none refused)
  have through := executes.runsThrough stands.running upcoming stepped nofun (finish_of_fault _ _)
  exact ⟨_, through, (finish_output _ _).trans stands.shown.written⟩

end Machine

end UniversalMachine
