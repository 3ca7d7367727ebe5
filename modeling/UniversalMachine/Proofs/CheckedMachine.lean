import UniversalMachine.Proofs.CheckedFields
import UniversalMachine.Proofs.Executed
import UniversalMachine.Proofs.ImageReading
import UniversalMachine.Proofs.LoadedMachine

/-!
# No panic

Here the machine takes register numbers from words, entries of the table from the stack of handles,
and its counters have an end. At the first register, entry or count that there is not, it comes to
a panic. But a register is named by three bits, and the stack lists gaps of the table. So from the
image on, through any number of steps, no panic is reached before a counter is full, and everything
is as on the machine that does not check.
-/

namespace UniversalMachine

namespace Checked

/-! ## Counters -/

/-- A number in a counter of so many bits. -/
def counter (bits number : Nat) : Checked Nat :=
  if number < 2 ^ bits then .ok number else .error (.counter bits number)

theorem counter_of_lt {bits number : Nat} (short : number < 2 ^ bits) :
    counter bits number = .ok number :=
  if_pos short

def steps (profile : Profile) : Checked Nat :=
  counter 64 profile.steps

def record (profile : Profile) (op : Opcode) : Checked Profile :=
  if inside : op.number < 14 then do
    let count ← counter 64 (profile.counts[op.number] + 1)
    .ok ⟨profile.counts.set op.number count inside⟩
  else .error (.entry 14 op.number)

theorem record_eq {profile : Profile} {op : Opcode} (room : profile.count op + 1 < 2 ^ 64) :
    record profile op = .ok (profile.record op) := by
  have inside := op.number_lt
  have counted : counter 64 (profile.counts[op.number] + 1) = .ok (profile.count op + 1) :=
    counter_of_lt room
  rw [record, dif_pos inside, counted]
  rfl

/-! ## The store -/

/-- Maps a segment. The handle from the stack has to have an entry in the table. -/
def allocate (store : Store) (length : Nat) (memory : Bool) :
    Checked (Except Fault (Handle × Store)) :=
  if memory then
    match store with
    | ⟨table, handle :: rest⟩ =>
      if inside : handle.index < table.size then
        let zeros := Array.replicate length 0
        .ok (.ok (handle, ⟨table.set handle.index (some zeros) inside, rest⟩))
      else .error (.entry table.size handle.index)
    | ⟨table, []⟩ =>
      if table.size < Store.handleCount then
        .ok (.ok (.ofIndex table.size, ⟨table.push (some (Array.replicate length 0)), []⟩))
      else .ok (.error .handlesExhausted)
  else .ok (.error (.allocationFailed length))

theorem allocate_eq {store : Store} (wf : store.WellFormed) (length : Nat) (memory : Bool) :
    allocate store length memory = .ok (store.allocate length memory) := by
  cases memory with
  | false => rfl
  | true =>
      obtain ⟨table, _ | ⟨handle, rest⟩⟩ := store
      · rw [Store.allocate_of_no_stack rfl, allocate, if_pos rfl]
        simp only
        split <;> rfl
      · have inside : handle.index < table.size := wf.index_lt List.mem_cons_self
        rw [Store.allocate_of_stack rfl, allocate, if_pos rfl]
        simp only [dif_pos inside, Array.setIfInBounds_def]

/-- Overwrites consecutive words. The offset is counted on once more than there are words. -/
def fillFrom (store : Store) (handle : Handle) (offset : Nat) :
    List Word → Checked (Except Fault Unit × Store)
  | [] => do
    let _ ← counter 32 (offset + 1)
    .ok (.ok (), store)
  | word :: rest => do
    let next ← counter 32 (offset + 1)
    match store.write handle (UInt32.ofNat offset) word with
    | .ok store => fillFrom store handle next rest
    | .error fault => .ok (.error fault, store)

theorem fillFrom_eq (store : Store) (handle : Handle) {offset : Nat} {words : List Word}
    (short : offset + words.length + 1 < 2 ^ 32) :
    fillFrom store handle offset words = .ok (store.fillFrom handle offset words) := by
  induction words generalizing store offset with
  | nil =>
      have counted : counter 32 (offset + 1) = .ok (offset + 1) := counter_of_lt short
      rw [fillFrom, counted]
      rfl
  | cons word rest ih =>
      rw [List.length_cons] at short
      rw [fillFrom, counter_of_lt (by omega), ok_bind, Store.fillFrom]
      cases store.write handle (UInt32.ofNat offset) word with
      | ok store => exact ih store (by omega)
      | error fault => rfl

/-! ## The image -/

/-- A store with the given words as its program. This is where a machine looks for it. -/
def install (words : Array Word) (memory : Bool) : Checked (Except Fault Store × List Event) :=
  if Image.wordLimit ≤ words.size then .ok (.error (.programTooLarge words.size), [])
  else do
    match ← allocate ∅ words.size memory with
    | .error fault => .ok (.error fault, [])
    | .ok (handle, store) =>
      if handle = .program then
        match ← fillFrom store handle 0 words.toList with
        | (.error fault, _) => .ok (.error fault, [.store (.mapped handle words.size)])
        | (.ok (), store) =>
          .ok (.ok store, [.store (.mapped handle words.size), .loaded words.size])
      else .error (.misplaced handle)

theorem install_eq {words : Array Word} (short : words.size + 1 < 2 ^ 32) (memory : Bool) :
    install words memory = .ok (Image.install words memory) := by
  have within : words.size < Image.wordLimit := Nat.lt_of_succ_lt short
  have filled (store : Store) :
      fillFrom store .program 0 words.toList = .ok (store.fill .program words.toList) := by
    apply fillFrom_eq
    rwa [Array.length_toList, Nat.zero_add]
  rw [install, if_neg (Nat.not_le.mpr within), allocate_eq Store.wellFormed_empty, ok_bind,
    Image.install, if_neg (Nat.not_le.mpr within)]
  cases memory with
  | false => rfl
  | true =>
      rw [Store.allocate_empty]
      simp only [if_true, filled, ok_bind]
      cases (Store.ofProgram (Array.replicate words.size 0)).fill .program words.toList with
      | mk result store => cases result <;> rfl

/-- Reads an image to its end and makes its words the program of a new store. -/
def load (image : List Delivery) (memory : Bool) : Checked (Except Fault Store × List Event) :=
  match Delivery.readAll image with
  | .error error => .ok (.error (.channel error), [])
  | .ok bytes => do
    let (result, events) ←
      match ← packFrom #[] bytes with
      | .error overflow => .ok (.error (.overflow overflow), [])
      | .ok words => install words memory
    .ok (result,
      if Image.dropped bytes = 0 then events else .dropped (Image.dropped bytes) :: events)

theorem load_eq {image : List Delivery}
    (short : (Delivery.content image).length / 4 < 2 ^ 32 - 1) (memory : Bool) :
    load image memory = .ok (Image.load image memory) := by
  rw [load, Image.load]
  cases read : Delivery.readAll image with
  | error error => rfl
  | ok bytes =>
      have fits : (Image.words bytes).size + 1 < 2 ^ 32 := by
        rw [Image.size_words, Delivery.eq_content_of_readAll read]
        omega
      simp only [packFrom_eq, ok_bind, Image.pack, Image.packFrom_eq, Array.empty_append,
        install_eq fits memory]

/-! ## One instruction -/

section Execute

variable (machine : Machine)

/-- The word in the register with a given number. -/
def get (source : Nat) : Checked Word :=
  (machine.registers.getNumber source).mapError .register

theorem get_eq (source : Register) : get machine source.val = .ok (machine.word source) := by
  rw [get, Registers.getNumber, Register.ofNumber, dif_pos source.isLt]
  rfl

/-- Puts a result into the register with a given number. A fault leaves the registers alone. -/
def keep (out : Nat) : Except Fault Word → Checked (Except Fault Next × Machine)
  | .ok word => do
    let registers ← (machine.registers.putNumber out word).mapError .register
    .ok (.ok .advance, { machine with registers })
  | .error fault => .ok (.error fault, machine)

theorem keep_ok (out : Register) (word : Word) :
    keep machine out.val (.ok word) = .ok (.ok .advance, machine.put out word) := by
  rw [keep, Registers.putNumber, Register.ofNumber, dif_pos out.isLt]
  rfl

/-- Puts what comes of the words in two registers into a third. -/
def compute (out left right : Nat) (f : Word → Word → Except Fault Word) :
    Checked (Except Fault Next × Machine) := do
  let first ← get machine left
  let second ← get machine right
  keep machine out (f first second)

theorem compute_eq (out left right : Register) (f : Word → Word → Except Fault Word) :
    compute machine out.val left.val right.val f =
      keep machine out.val (f (machine.word left) (machine.word right)) := by
  rw [compute, get_eq, ok_bind, get_eq, ok_bind]

/-- Executes an instruction on registers given by numbers. -/
def execute : Instr Nat → Checked (Except Fault Next × Machine)
  | .conditionalMove out src cond => do
    let condition ← get machine cond
    if condition = 0 then .ok (.ok .advance, machine)
    else
      let word ← get machine src
      keep machine out (.ok word)
  | .load out seg offset =>
    compute machine out seg offset fun handle offset => machine.store.read ⟨handle⟩ offset
  | .store seg offset val => do
    let handle ← get machine seg
    let offset ← get machine offset
    let word ← get machine val
    .ok (machine.takeStore.2.resume (machine.store.write ⟨handle⟩ offset word))
  | .add out left right => compute machine out left right fun a b => .ok (a + b)
  | .multiply out left right => compute machine out left right fun a b => .ok (a * b)
  | .divide out left right =>
    compute machine out left right fun a b => if b = 0 then .error .divideByZero else .ok (a / b)
  | .nand out left right => compute machine out left right fun a b => .ok (~~~(a &&& b))
  | .halt => .ok (.ok .halt, machine)
  | .map out len => do
    let length ← get machine len
    let memory := machine.hasMemory
    let (store, machine) := machine.takeStore
    match ← allocate store length.toNat memory with
    | .ok (handle, store) =>
      let machine := { machine with store }
      keep (machine.note (.store (.mapped handle length.toNat))) out (.ok handle.word)
    | .error fault => .ok (.error fault, machine)
  | .unmap seg => do
    let handle ← get machine seg
    .ok (machine.unmap ⟨handle⟩)
  | .output val => do
    let word ← get machine val
    .ok (machine.output word)
  | .input out =>
    let (answer, channels) := machine.channels.receive
    keep { machine with channels } out ((answer.mapError .channel).map inputWord)
  | .loadProgram seg target => do
    let handle ← get machine seg
    let target ← get machine target
    .ok (machine.jump ⟨handle⟩ target)
  | .loadImmediate out value => keep machine out (.ok value)

theorem execute_map (wf : machine.store.WellFormed) (out len : Register) :
    execute machine (.map out.val len.val) =
      .ok (machine.map out (machine.word len).toNat) := by
  rw [execute, get_eq, ok_bind, Machine.map]
  simp only [Machine.takeStore, allocate_eq wf, ok_bind]
  cases machine.store.allocate (machine.word len).toNat machine.hasMemory with
  | ok answer => exact keep_ok _ out _
  | error fault => rfl

theorem execute_input (out : Register) :
    execute machine (.input out.val) = .ok (machine.input out) := by
  cases answer : machine.channels.receive with
  | mk result channels =>
      simp only [execute, answer]
      cases result with
      | ok byte? =>
          rw [Machine.input_of_ok answer]
          exact keep_ok _ out _
      | error error =>
          rw [Machine.input_of_error answer]
          rfl

/-- There are registers of every number that an instruction word has room for. -/
theorem execute_eq (wf : machine.store.WellFormed) (instruction : Instruction) :
    execute machine (instruction.rename Fin.val) = .ok (machine.execute instruction) := by
  cases instruction with
  | conditionalMove out src cond =>
      rw [Instr.rename, execute, get_eq, ok_bind, Machine.execute]
      split
      · rfl
      · rw [get_eq, ok_bind, keep_ok]
  | load out seg offset =>
      rw [Instr.rename, execute, compute_eq, Machine.execute, Machine.load]
      cases machine.store.read ⟨machine.registers.get seg⟩ (machine.registers.get offset) with
      | ok word => exact keep_ok machine out word
      | error fault => rfl
  | store seg offset val =>
      rw [Instr.rename, execute, get_eq, ok_bind, get_eq, ok_bind, get_eq]
      rfl
  | divide out left right =>
      rw [Instr.rename, execute, compute_eq, Machine.execute]
      split
      · rfl
      · exact keep_ok machine out _
  | add out left right | multiply out left right | nand out left right =>
      rw [Instr.rename, execute, compute_eq, keep_ok]
      rfl
  | halt => rfl
  | map out len => exact execute_map machine wf out len
  | input out => exact execute_input machine out
  | unmap source | output source =>
      rw [Instr.rename, execute, get_eq]
      rfl
  | loadProgram seg target =>
      rw [Instr.rename, execute, get_eq, ok_bind, get_eq]
      rfl
  | loadImmediate out value => exact keep_ok machine out value

end Execute

/-! ## One step -/

def fetch (machine : Machine) : Checked (Except Fault (Instr Nat)) :=
  match machine.store.program with
  | .error fault => .ok (.error fault)
  | .ok words =>
    match words[machine.pc.toNat]? with
    | some word => decode word
    | none => .ok (.error (.pcOutOfBounds machine.pc words.size))

theorem fetch_eq (machine : Machine) :
    fetch machine = .ok (machine.fetch.map (Instr.rename Fin.val)) := by
  rw [fetch, Machine.fetch]
  cases machine.store.program with
  | error fault => rfl
  | ok words =>
      simp only
      cases words[machine.pc.toNat]? with
      | none => rfl
      | some word => exact decode_eq word

/-- The steps so far are only counted up if there is a limit to compare them with. -/
def upcoming (machine : Machine) : Checked (Except Fault (Instr Nat)) :=
  match machine.config.stepLimit with
  | none => fetch machine
  | some limit => do
    let steps ← steps machine.profile
    if limit ≤ steps then .ok (.error (.stepLimitExceeded limit)) else fetch machine

theorem upcoming_eq {machine : Machine}
    (counted : machine.config.stepLimit ≠ none → machine.profile.steps < 2 ^ 64) :
    upcoming machine = .ok (machine.upcoming.map (Instr.rename Fin.val)) := by
  rw [upcoming, Machine.upcoming]
  cases limited : machine.config.stepLimit with
  | none => exact fetch_eq machine
  | some limit =>
      have room : steps machine.profile = .ok machine.profile.steps :=
        counter_of_lt (counted (by simp [limited]))
      simp only [room, ok_bind]
      split
      · rfl
      · exact fetch_eq machine

/-- The register that is logged for a number. One that comes from a word is logged as it is. -/
def logged (number : Nat) : Register :=
  ⟨number % 8, Nat.mod_lt number (Nat.succ_pos 7)⟩

theorem rename_logged (instruction : Instruction) :
    (instruction.rename Fin.val).rename logged = instruction := by
  have undoes : Function.LeftInverse logged Fin.val :=
    fun register => Fin.ext (Nat.mod_eq_of_lt register.isLt)
  rw [Instr.rename_rename, undoes.comp_eq_id, Instr.rename_id]

/-- Logs and counts an instruction. -/
def enter (machine : Machine) (instr : Instr Nat) : Checked Machine := do
  let profile ← record machine.profile instr.opcode
  .ok { machine with
    profile
    log := machine.log.push (.execute machine.pc (instr.rename logged)) }

theorem enter_eq {machine : Machine} {instruction : Instruction}
    (room : machine.profile.count instruction.opcode + 1 < 2 ^ 64) :
    enter machine (instruction.rename Fin.val) = .ok (machine.enter instruction) := by
  rw [enter, Instr.opcode_rename, record_eq room, ok_bind, rename_logged]
  rfl

def step (machine : Machine) : Checked (Except Fault Status × Machine) :=
  if machine.status ≠ .running then .ok (.ok machine.status, machine)
  else do
    match ← upcoming machine with
    | .error fault => .ok (.error fault, machine.stop .failed)
    | .ok instr =>
      match ← execute (← enter machine instr) instr with
      | (.ok next, machine) => .ok (machine.settle next)
      | (.error fault, machine) => .ok (.error fault, machine.stop .failed)

theorem step_eq {machine : Machine} (wf : machine.store.WellFormed)
    (counted : machine.config.stepLimit ≠ none → machine.profile.steps < 2 ^ 64)
    (room : ∀ op, machine.step.2.profile.count op < 2 ^ 64) :
    step machine = .ok machine.step := by
  by_cases running : machine.status = .running
  · rw [step, if_neg (not_not_intro running), upcoming_eq counted, ok_bind]
    cases upcoming : machine.upcoming with
    | error fault =>
        rw [Machine.step_of_refused running upcoming]
        rfl
    | ok instruction =>
        have executing := Machine.executing?_eq_some_iff.mpr ⟨running, upcoming⟩
        have entered : enter machine (instruction.rename Fin.val) =
            .ok (machine.enter instruction) := by
          apply enter_eq
          have counts := room instruction.opcode
          rwa [Machine.count_of_executing executing, if_pos rfl] at counts
        have entered_wf : (machine.enter instruction).store.WellFormed := wf
        simp only [Except.map, entered, ok_bind, execute_eq _ entered_wf]
        cases executed : (machine.enter instruction).execute instruction with
        | mk result after =>
            cases result with
            | ok next => rw [Machine.step_of_executed running upcoming executed]
            | error fault => rw [Machine.step_of_failed running upcoming executed]
  · rw [Machine.step_of_stopped running]
    exact if_pos running

/-! ## Many steps -/

/-- A number of steps, one after the other. -/
def stepped (machine : Machine) : Nat → Checked Machine
  | 0 => .ok machine
  | count + 1 => do
    let (_, machine) ← step machine
    stepped machine count

end Checked

namespace Machine

variable {machine after : Machine}

/-- What keeps a machine from coming to a panic: the stack lists gaps of the table, and a limit
stops the machine before its steps could no longer be counted. -/
structure Sound (machine : Machine) : Prop where
  wellFormed : machine.store.WellFormed
  limited : ∀ limit ∈ machine.config.stepLimit, machine.profile.steps ≤ limit ∧ limit < 2 ^ 64

theorem Sound.counted (sound : machine.Sound) (limited : machine.config.stepLimit ≠ none) :
    machine.profile.steps < 2 ^ 64 := by
  obtain ⟨limit, is_limit⟩ := Option.ne_none_iff_exists'.mp limited
  obtain ⟨le, short⟩ := sound.limited limit is_limit
  exact Nat.lt_of_le_of_lt le short

/-- Whatever an instruction does that succeeds, the store keeps its invariant. -/
theorem Effect.wellFormed {instruction : Instruction} {way : Next}
    (effect : machine.Effect instruction (.ok way) after) (wf : machine.store.WellFormed) :
    after.store.WellFormed := by
  cases effect with
  | wrote written => exact wf.write written
  | mapped allocated => exact wf.allocate allocated
  | unmapped freed => exact wf.free freed
  | installed other installed => exact wf.install installed
  | computed | halted | jumped | delivered | received => exact wf

theorem step_wellFormed (wf : machine.store.WellFormed) : machine.step.2.store.WellFormed := by
  by_cases running : machine.status = .running
  · rcases step_cases running with ⟨fault, -, refused⟩ |
      ⟨instruction, way, after, -, executed, settled⟩ | ⟨instruction, fault, after, -, -, failed⟩
    · rw [refused]
      exact Store.wellFormed_empty
    · have entered : (machine.enter instruction).store.WellFormed := wf
      rw [settled]
      cases way with
      | halt => exact Store.wellFormed_empty
      | advance | jump target => exact (effect_of_execute executed).wellFormed entered
    · rw [failed]
      exact Store.wellFormed_empty
  · rwa [step_of_stopped running]

theorem step_config (machine : Machine) : machine.step.2.config = machine.config := by
  by_cases running : machine.status = .running
  · rcases step_cases running with ⟨fault, -, refused⟩ |
      ⟨instruction, way, after, -, executed, settled⟩ |
      ⟨instruction, fault, after, -, executed, failed⟩
    · rw [refused, stop]
    · rw [settled, (after.settle_frame way).2.2.1, (effect_of_execute executed).frame.2.1, enter]
    · rw [failed, stop, (effect_of_execute executed).frame.2.1, enter]
  · rw [step_of_stopped running]

theorem withinLimit_of_upcoming {instruction : Instruction}
    (upcoming : machine.upcoming = .ok instruction) : machine.WithinLimit := by
  rcases machine.withinLimit_or_limit with within | ⟨limit, limited, reached⟩
  · exact within
  · rw [upcoming_of_limit limited reached] at upcoming
    cases upcoming

theorem Sound.step (sound : machine.Sound) : machine.step.2.Sound where
  wellFormed := step_wellFormed sound.wellFormed
  limited := by
    intro limit is_limit
    rw [step_config] at is_limit
    obtain ⟨le, short⟩ := sound.limited limit is_limit
    refine ⟨?_, short⟩
    rw [step_profile]
    cases executing : machine.executing? with
    | none => exact le
    | some instruction =>
        have within := withinLimit_of_upcoming (executing?_eq_some_iff.mp executing).2
        rw [Option.elim_some, Profile.steps_record]
        exact within limit is_limit

/-- What comes of the step after any number of steps. -/
theorem Sound.stepped_eq (sound : machine.Sound) {count : Nat}
    (room : ∀ op, (machine.stepped (count + 1)).profile.count op < 2 ^ 64) :
    (Checked.stepped machine count >>= Checked.step) = .ok (machine.stepped count).step := by
  induction count generalizing machine with
  | zero => exact Checked.step_eq sound.wellFormed sound.counted room
  | succ count ih =>
      have room_now (op : Opcode) : machine.step.2.profile.count op < 2 ^ 64 :=
        Nat.lt_of_le_of_lt (machine.step.2.count_mono op (count + 1)) (room op)
      rw [Checked.stepped, Checked.step_eq sound.wellFormed sound.counted room_now]
      exact ih sound.step room

/-- How a machine comes about: around a store that calls lead to, or by loading an image. -/
inductive Started : Machine → Prop where
  | around (history : List Store.Call) (channels : Channels) (config : Config)
      (log : Array Event) : Started { store := (∅ : Store).after history, channels, config, log }
  | loaded {image : List Delivery} {channels : Channels} {config : Config} {machine : Machine}
      {events : List Event} (loaded : ofImage image channels config = (.ok machine, events)) :
      Started machine

theorem Started.sound (started : Started machine)
    (limits : ∀ limit ∈ machine.config.stepLimit, limit < 2 ^ 64) : machine.Sound := by
  obtain ⟨wf, fresh⟩ : machine.store.WellFormed ∧ machine.profile = .empty := by
    cases started with
    | around history channels config log => exact ⟨Store.wellFormed_after history, rfl⟩
    | loaded loaded => exact ⟨(runnable_ofImage loaded).wellFormed, (ofImage_fresh loaded).2⟩
  refine ⟨wf, fun limit is_limit => ⟨?_, limits limit is_limit⟩⟩
  rw [fresh, Profile.steps_empty]
  exact Nat.zero_le limit

end Machine

namespace Checked

/-- No panic is reached: not in loading an image, with or without memory for it, as long as one more
than its words can be counted in 32 bits; not in any step of a machine around a store that calls
lead to, or of a machine that was loaded, as long as no counter of the profile is full; not in
taking any word apart; and not in encoding any instruction, also on registers that there are not.
Everything comes out as on the machine that does not check. -/
theorem never_panics :
    (∀ image, (Delivery.content image).length / 4 < 2 ^ 32 - 1 →
      ∀ memory, Checked.load image memory = .ok (Image.load image memory)) ∧
    (∀ machine, Machine.Started machine →
      (∀ limit ∈ machine.config.stepLimit, limit < 2 ^ 64) →
      ∀ count, (∀ op, (machine.stepped (count + 1)).profile.count op < 2 ^ 64) →
        (Checked.stepped machine count >>= Checked.step) = .ok (machine.stepped count).step) ∧
    (∀ word, Checked.decode word = .ok ((Instr.decode word).map (Instr.rename Fin.val)) ∧
      Checked.operands word =
        .ok (Layout.opcodeNumber word, (Operands.ofWord word).rename Fin.val)) ∧
    ∀ instr : Instr Nat, Checked.encode instr = .ok instr.encode := by
  refine ⟨fun image short => load_eq short, ?_, ?_, encode_eq⟩
  · intro machine started limits count room
    exact (started.sound limits).stepped_eq room
  · intro word
    exact ⟨decode_eq word, operands_eq word⟩

/-- An image of one word, and a program that maps a segment under a handle from the stack and writes
the handle, run to its end. -/
theorem never_panics_reusing :
    let image : List Delivery := [.chunk [0x70, 0, 0, 0, 1]]
    let history : List Store.Call := [.allocate 4, .write .program 0 0xD2000005,
      .write .program 1 0x80000011, .write .program 2 0xA0000002, .write .program 3 0x70000000,
      .allocate 1, .free ⟨1⟩]
    let machine : Machine :=
      { store := (∅ : Store).after history
        channels := { input := [] }
        config := { stepLimit := some 9 } }
    (Delivery.content image).length / 4 < 2 ^ 32 - 1 ∧
    Checked.load image true = .ok (Image.load image true) ∧
    Machine.Started machine ∧ machine.store.reusable = [⟨1⟩] ∧
    (∀ limit ∈ machine.config.stepLimit, limit < 2 ^ 64) ∧
    (∀ op, (machine.stepped 4).profile.count op < 2 ^ 64) ∧
    (machine.stepped 4).channels.output = [1] ∧
    (Checked.stepped machine 3 >>= Checked.step) = .ok (machine.stepped 3).step := by
  intro image history machine
  obtain ⟨loads, steps, -, -⟩ := never_panics
  have short : (Delivery.content image).length / 4 < 2 ^ 32 - 1 := by decide
  have started : Machine.Started machine := .around history _ _ _
  have limits : ∀ limit ∈ machine.config.stepLimit, limit < 2 ^ 64 := by decide
  have room : ∀ op, (machine.stepped 4).profile.count op < 2 ^ 64 := by
    intro op
    cases op <;> decide +kernel
  exact ⟨short, loads image short true, started, by decide +kernel, limits, room, by decide +kernel,
    steps machine started limits 3 room⟩

/-- Without what guards them, registers, fields, differences, entries and counters do panic. -/
example :
    get { store := ∅, channels := { input := [] } } 8 = .error (.register ⟨8⟩) ∧
    getUnsigned 3 62 0 = .error (.field (.outside 3 62)) ∧
    difference 3 4 = .error (.difference 3 4) ∧
    allocate ⟨#[], [.program]⟩ 0 true = .error (.entry 0 0) ∧
    counter 32 (2 ^ 32) = .error (.counter 32 (2 ^ 32)) := by
  decide

end Checked

end UniversalMachine
