import UniversalMachine.Proofs.ImageReading
import UniversalMachine.Proofs.Listing
import UniversalMachine.Proofs.ProgramSegment

/-!
# The run of a listed program

A machine that is loaded from encoded instructions does what the interpreter of their list does.
One step that leaves the program alone is the same in both, so they stay side by side until the
program is changed.
-/

namespace UniversalMachine

/-! ## The store -/

section Store

variable {listing : Listing} {words : Segment} {store : Store}

theorem Store.read_encoded (encodes : listing.Encodes words)
    (runnable : (store.withProgram words).Runnable) (handle : Handle) (offset : Word) :
    (store.withProgram words).read handle offset = listing.read store handle offset := by
  unfold Listing.read
  by_cases program : handle = .program
  · subst program
    have found := find?_withProgram runnable.nonempty words
    rw [if_pos rfl, Listing.cell, read, segment_of_find? found]
    obtain ⟨listed, cell⟩ | ⟨instruction, word, listed, cell, encoded⟩ :=
      encodes.cases offset.toNat
    · simp only [cell, listed, encodes.size_eq]
    · simp only [cell, listed, encoded]
      rfl
  · rw [if_neg program, read_withProgram program]

/-- A write into the program fails as the list says, or it changes the program. -/
theorem Store.write_encoded (encodes : listing.Encodes words)
    (runnable : (store.withProgram words).Runnable) (handle : Handle) (offset word : Word)
    (keeps : handle = .program →
      ∃ fault, (store.withProgram words).write handle offset word = .error fault) :
    (store.withProgram words).write handle offset word =
      (listing.write store handle offset word).map fun store => store.withProgram words := by
  unfold Listing.write
  by_cases program : handle = .program
  · obtain ⟨fault, failed⟩ := keeps program
    subst program
    have found := find?_withProgram runnable.nonempty words
    have outside : ¬ offset.toNat < listing.length := by
      intro inside
      rw [write, length_of_find? found, encodes.size_eq] at failed
      simp [inside] at failed
    rw [if_pos rfl, if_neg outside, write, length_of_find? found, encodes.size_eq]
    simp only [if_neg outside]
    rfl
  · rw [if_neg program, write_withProgram program]

end Store

/-! ## One instruction -/

namespace Machine

/-- The machine with other words as its program. -/
def withProgram (machine : Machine) (words : Segment) : Machine :=
  { machine with store := machine.store.withProgram words }

/-- An instruction that changes the program if it does not fail: a write into the program, or a
load of another one. -/
def AddressesProgram (machine : Machine) : Instruction → Prop
  | .store seg _ _ => machine.handle seg = .program
  | .loadProgram seg _ => machine.handle seg ≠ .program
  | _ => False

/-- The next step changes the program. -/
def ChangesProgram (machine : Machine) : Prop :=
  machine.step.1 = .ok .running ∧
    ∃ instruction, machine.upcoming = .ok instruction ∧ machine.AddressesProgram instruction

theorem not_changesProgram {machine : Machine} {instruction : Instruction}
    (upcoming : machine.upcoming = .ok instruction)
    (other : ¬ machine.AddressesProgram instruction) : ¬ machine.ChangesProgram := by
  rintro ⟨-, found, same, addresses⟩
  rw [upcoming] at same
  cases same
  exact other addresses

section Step

variable {listing : Listing} {words : Segment} {machine : Machine}

theorem settle_withProgram (machine : Machine) (words : Segment) (next : Next) :
    (machine.withProgram words).settle next =
      ((machine.settle next).1, (machine.settle next).2.withProgram words) := by
  cases next <;> rfl

theorem jump_withProgram {handle : Handle} {target : Word}
    (keeps : handle ≠ .program →
      ∃ fault, ((machine.withProgram words).jump handle target).1 = .error fault) :
    (machine.withProgram words).jump handle target =
      ((machine.jump handle target).1, (machine.jump handle target).2.withProgram words) := by
  by_cases itself : handle = .program
  · rw [jump, jump, if_pos itself, if_pos itself]
  · obtain ⟨fault, failed⟩ := keeps itself
    obtain ⟨-, missing, -⟩ := jump_eq_error_iff.mp failed
    have refused : (machine.withProgram words).store.install handle =
        .error (.unmappedSegment handle) := Store.install_eq_error_iff.mpr ⟨missing, rfl⟩
    have missing_too : machine.store.find? handle = none := by
      rw [← missing]
      exact (Store.find?_withProgram_of_ne itself).symm
    have refused_too : machine.store.install handle = .error (.unmappedSegment handle) :=
      Store.install_eq_error_iff.mpr ⟨missing_too, rfl⟩
    simp only [jump, if_neg itself, takeStore, refused, refused_too]
    rfl

theorem unseen_withProgram (words : Segment) :
    Unseen fun machine => machine.withProgram words where
  registers _ := rfl
  channels _ := rfl
  outputPolicy _ := rfl
  put _ _ _ := rfl
  exchange _ _ := rfl

/-- An instruction that leaves the program alone does not tell the words from the list. -/
theorem execute_withProgram (encodes : listing.Encodes words)
    (runnable : (machine.withProgram words).store.Runnable) {instruction : Instruction}
    (keeps : machine.AddressesProgram instruction →
      ∃ fault, ((machine.withProgram words).execute instruction).1 = .error fault) :
    (machine.withProgram words).execute instruction =
      ((listing.execute machine instruction).1,
        (listing.execute machine instruction).2.withProgram words) := by
  cases instruction with
  | load out seg offset =>
      have same := Store.read_encoded encodes runnable (machine.handle seg) (machine.word offset)
      simp only [Listing.execute, execute, load, withProgram]
      rw [same]
      cases listing.read machine.store (machine.handle seg) (machine.word offset) <;> rfl
  | store seg offset val =>
      have same := Store.write_encoded encodes runnable (machine.handle seg) (machine.word offset)
        (machine.word val) fun program => (keeps program).imp fun fault => resume_eq_error_iff.mp
      simp only [Listing.execute, execute, takeStore, withProgram]
      rw [same]
      cases listing.write machine.store (machine.handle seg) (machine.word offset)
        (machine.word val) <;> rfl
  | map out len =>
      have same := Store.allocate_withProgram runnable (machine.word len).toNat
        (machine.config.hasMemory machine.profile.steps)
      simp only [Listing.execute, execute, map, takeStore, hasMemory, withProgram]
      rw [same]
      cases machine.store.allocate (machine.word len).toNat _ <;> rfl
  | unmap seg =>
      have same := Store.free_withProgram machine.store words (machine.handle seg)
      simp only [Listing.execute, execute, unmap, takeStore, withProgram]
      rw [same]
      cases machine.store.free (machine.handle seg) <;> rfl
  | loadProgram seg target => exact jump_withProgram keeps
  | conditionalMove | add | multiply | divide | nand | halt | output | input | loadImmediate =>
      exact (unseen_withProgram words).execute machine (by simp [Instr.opcode])

/-! ## One step -/

theorem fetch_withProgram (encodes : listing.Encodes words)
    (runnable : (machine.withProgram words).store.Runnable) :
    (machine.withProgram words).fetch = listing.fetch machine := by
  have found := Store.find?_withProgram runnable.nonempty words
  have program : (machine.withProgram words).store.program = .ok words :=
    Store.segment_of_find? found
  rw [fetch, program, Listing.fetch]
  obtain ⟨listed, cell⟩ | ⟨instruction, word, listed, cell, encoded⟩ :=
    encodes.cases machine.pc.toNat
  · have past : words[(machine.withProgram words).pc.toNat]? = none := cell
    simp only [past, listed, encodes.size_eq]
    rfl
  · have inside : words[(machine.withProgram words).pc.toNat]? = some word := cell
    simp only [inside, listed, Instr.decode_of_encode_rename encoded]

theorem upcoming_withProgram (encodes : listing.Encodes words)
    (runnable : (machine.withProgram words).store.Runnable) :
    (machine.withProgram words).upcoming = listing.upcoming machine := by
  rw [upcoming, fetch_withProgram encodes runnable]
  rfl

/-- An instruction that addresses the program leaves the machine running, unless it fails. -/
theorem answer_of_addresses {instruction : Instruction} (running : machine.status = .running)
    (upcoming : machine.upcoming = .ok instruction)
    (addresses : machine.AddressesProgram instruction) :
    machine.step.1 = .ok .running ∨
      ∃ fault, ((machine.enter instruction).execute instruction).1 = .error fault := by
  cases executed : (machine.enter instruction).execute instruction with
  | mk result after =>
      cases result with
      | error fault => exact .inr ⟨fault, rfl⟩
      | ok next =>
          left
          rw [step_of_executed running upcoming executed]
          have effect := effect_of_execute executed
          cases effect with
          | halted => exact addresses.elim
          | computed | wrote | mapped | unmapped | jumped | installed | delivered | received => rfl

/-- A step that leaves the program alone is a step of the interpreter. -/
theorem step_withProgram (encodes : listing.Encodes words)
    (runnable : machine.status = .running → (machine.withProgram words).store.Runnable)
    (keeps : ¬ (machine.withProgram words).ChangesProgram) :
    (machine.withProgram words).step =
      ((listing.step machine).1, (listing.step machine).2.withProgram words) := by
  by_cases running : machine.status = .running
  · have still_running : (machine.withProgram words).status = .running := running
    have same := upcoming_withProgram encodes (runnable running)
    cases upcoming : listing.upcoming machine with
    | error fault =>
        rw [Listing.step_of_refused running upcoming]
        exact step_of_refused still_running (same.trans upcoming)
    | ok instruction =>
        have upcoming_too := same.trans upcoming
        -- An instruction that addresses the program has to fail, or the step would change it.
        have fails (addresses : machine.AddressesProgram instruction) :
            ∃ fault, (((machine.enter instruction).withProgram words).execute instruction).1 =
              .error fault := by
          apply (answer_of_addresses still_running upcoming_too addresses).resolve_left
          exact fun answer => keeps ⟨answer, instruction, upcoming_too, addresses⟩
        have entered : ((machine.enter instruction).withProgram words).store.Runnable :=
          runnable running
        have alike := execute_withProgram encodes entered fails
        cases executed : listing.execute (machine.enter instruction) instruction with
        | mk result after =>
            rw [executed] at alike
            cases result with
            | ok next =>
                rw [Listing.step_of_executed running upcoming executed, ← settle_withProgram]
                exact step_of_executed still_running upcoming_too alike
            | error fault =>
                have failed := step_of_failed still_running upcoming_too alike
                rw [Listing.step_of_failed running upcoming executed]
                exact failed
  · rw [Listing.step_of_stopped running]
    exact step_of_stopped running

/-! ## Many steps -/

/-- The machine is the interpreter with its program as words, for as long as the program is not
changed. -/
theorem stepped_withProgram {count : Nat} (encodes : listing.Encodes words)
    (runnable : (machine.withProgram words).store.Runnable)
    (keeps : ∀ earlier < count, ¬ ((machine.withProgram words).stepped earlier).ChangesProgram) :
    (∀ earlier < count,
      (machine.withProgram words).answer earlier = listing.answer machine earlier) ∧
    (machine.withProgram words).stepped count =
      (listing.stepped machine count).withProgram words := by
  induction count with
  | zero => exact ⟨fun earlier before => absurd before (Nat.not_lt_zero earlier), rfl⟩
  | succ count ih =>
      obtain ⟨answers, side_by_side⟩ :=
        ih fun earlier before => keeps earlier (Nat.lt_succ_of_lt before)
      have kept := keeps count (Nat.lt_succ_self count)
      rw [side_by_side] at kept
      have still_runnable (running : (listing.stepped machine count).status = .running) :
          ((listing.stepped machine count).withProgram words).store.Runnable := by
        rw [← side_by_side]
        apply (runsFor_of_running _).runnable runnable
        rw [side_by_side]
        exact running
      have alike := step_withProgram encodes still_runnable kept
      refine ⟨?_, ?_⟩
      · intro earlier before
        rcases Nat.lt_succ_iff_lt_or_eq.mp before with before | rfl
        · exact answers earlier before
        · rw [answer, side_by_side, alike, Listing.answer]
      · rw [stepped_succ, side_by_side, alike, Listing.stepped]

/-! ## What cannot be fetched -/

/-- A machine runs past the end of the instructions if the limit lets it. -/
theorem step_pcOutOfBounds_iff (encodes : listing.Encodes words)
    (runnable : (machine.withProgram words).store.Runnable) (running : machine.status = .running)
    {pc : Word} {length : Nat} :
    (machine.withProgram words).step.1 = .error (.pcOutOfBounds pc length) ↔
      (machine.withProgram words).WithinLimit ∧ listing.length ≤ machine.pc.toNat ∧
        pc = machine.pc ∧ length = listing.length := by
  have found := Store.find?_withProgram runnable.nonempty words
  rw [step_eq_error_iff runnable.wellFormed running, ← encodes.size_eq]
  constructor
  · intro fails
    obtain ⟨within, fetch_fails⟩ := fails.fetch trivial
    cases fetch_fails with
    | outside mapped past =>
        obtain rfl : words = _ := Option.some.inj (found.symm.trans mapped)
        exact ⟨within, past, rfl, rfl⟩
  · rintro ⟨within, past, rfl, rfl⟩
    exact .refused (.fetch within (.outside found past))

theorem step_ne_invalidOpcode (encodes : listing.Encodes words)
    (runnable : machine.status = .running → (machine.withProgram words).store.Runnable)
    (number : Nat) (word : Word) :
    (machine.withProgram words).step.1 ≠ .error (.invalidOpcode number word) := by
  intro failed
  have running : machine.status = .running := (status_of_fault (Prod.ext failed rfl)).1
  have runs := runnable running
  obtain ⟨-, fails⟩ := ((step_eq_error_iff runs.wellFormed running).mp failed).fetch trivial
  have fetched := fetch_eq_error_iff.mpr fails
  rw [fetch_withProgram encodes runs, Listing.fetch] at fetched
  split at fetched <;> cases fetched

end Step

/-! ## From the instructions to the run -/

theorem ofImage_of_written {image : List Delivery} {words : List Word}
    (read : Delivery.readAll image = .ok (Image.ofWords words))
    (short : words.length < Image.wordLimit) (channels : Channels) {config : Config}
    (memory : config.hasMemory 0) :
    ∃ events, ofImage image channels config =
      (.ok { store := .ofProgram words.toArray, channels, config, log := events.toArray },
        events) := by
  have loaded := Image.load_of_written read short
  refine ⟨(Image.load image true).2, ofImage_of_load ?_ channels⟩
  rw [memory]
  exact Prod.ext loaded rfl

/-- A machine that is loaded from encoded instructions, with memory for them, does what the
interpreter does with the instructions themselves, for as long as no step changes the program. It
runs past their end if the step limit lets it, and never meets a word that is no instruction. -/
theorem runs_listing {source : List (Instr Nat)} {words : List Word} {image : List Delivery}
    (assembled : source.map Instr.encode = words.map .ok) (short : source.length < 2 ^ 32 - 1)
    (read : Delivery.readAll image = .ok (Image.ofWords words))
    (channels : Channels) {config : Config} (memory : config.hasMemory 0) :
    ∃ (listing : Listing) (machine : Machine) (events : List Event),
      listing.map (Instr.rename Fin.val) = source ∧
      ofImage image channels config = (.ok machine, events) ∧
      let start : Machine := { store := .ofProgram #[], channels, config, log := events.toArray }
      ∀ count, (∀ earlier < count, ¬ (machine.stepped earlier).ChangesProgram) →
        let now := machine.stepped count
        let other := listing.stepped start count
        (∀ earlier < count, machine.answer earlier = listing.answer start earlier) ∧
        now.status = other.status ∧ now.pc = other.pc ∧ now.registers = other.registers ∧
        (∀ handle, handle ≠ .program → now.store.find? handle = other.store.find? handle) ∧
        now.profile = other.profile ∧ now.channels = other.channels ∧
        (∀ number word, now.step.1 ≠ .error (.invalidOpcode number word)) ∧
        (now.status = .running → ∀ pc length,
          now.step.1 = .error (.pcOutOfBounds pc length) ↔
            now.WithinLimit ∧ source.length ≤ now.pc.toNat ∧ pc = now.pc ∧
              length = source.length) := by
  obtain ⟨listing, rfl, encodes⟩ := Listing.exists_encodes assembled
  have addressable : words.length < UInt32.size := by
    have same : words.toArray.size = listing.length := encodes.size_eq
    rw [List.size_toArray] at same
    rw [List.length_map] at short
    rw [same]
    exact Nat.lt_trans short (by decide)
  obtain ⟨events, made⟩ := ofImage_of_written read addressable channels memory
  refine ⟨listing, _, events, rfl, made, ?_⟩
  intro start count keeps now other
  have runnable : (start.withProgram words.toArray).store.Runnable :=
    Store.runnable_ofProgram addressable
  obtain ⟨answers, side_by_side⟩ := stepped_withProgram encodes runnable keeps
  have same : now = other.withProgram words.toArray := side_by_side
  have still_runnable (running : other.status = .running) :
      (other.withProgram words.toArray).store.Runnable := by
    have still_running : now.status = .running := by
      rw [same]
      exact running
    rw [← same]
    exact (runsFor_of_running still_running).runnable runnable
  clear_value now
  subst same
  refine ⟨answers, rfl, rfl, rfl, ?_, rfl, rfl, step_ne_invalidOpcode encodes still_runnable, ?_⟩
  · intro handle elsewhere
    exact Store.find?_withProgram_of_ne elsewhere
  · intro running pc length
    rw [List.length_map]
    exact step_pcOutOfBounds_iff encodes (still_runnable running) running

/-- A program that reads its last instruction as a word, and the two steps up to that. -/
theorem runs_listing_reading :
    let source : List (Instr Nat) := [.loadImmediate 1 2, .load 2 0 1, .halt]
    let words : List Word := [0xD2000002, 0x10000081, 0x70000000]
    let image : List Delivery := [.chunk (Image.ofWords words)]
    source.map Instr.encode = words.map .ok ∧ source.length < 2 ^ 32 - 1 ∧
    Delivery.readAll image = .ok (Image.ofWords words) ∧ ({} : Config).hasMemory 0 ∧
    ∃ (listing : Listing) (machine : Machine) (events : List Event),
      listing.map (Instr.rename Fin.val) = source ∧
      ofImage image { input := [] } {} = (.ok machine, events) ∧
      let start : Machine :=
        { store := .ofProgram #[], channels := { input := [] }, log := events.toArray }
      (∀ earlier < 2, ¬ (machine.stepped earlier).ChangesProgram) ∧
      (machine.stepped 2).registers = (listing.stepped start 2).registers ∧
      (machine.stepped 2).word 2 = 0x70000000 := by
  intro source words image
  have assembled : source.map Instr.encode = words.map .ok := by decide +kernel
  have short : source.length < 2 ^ 32 - 1 := by decide
  have read : Delivery.readAll image = .ok (Image.ofWords words) := by decide +kernel
  have memory : ({} : Config).hasMemory 0 := rfl
  let machine : Machine :=
    { store := ⟨#[some words.toArray], []⟩
      channels := { input := [] }
      log := #[.store (.mapped .program 3), .loaded 3] }
  have computed : (ofImage image { input := [] } {}).1 = .ok machine := by decide +kernel
  have keeps : ∀ earlier < 2, ¬ (machine.stepped earlier).ChangesProgram := by
    intro earlier before
    obtain rfl | rfl : earlier = 0 ∨ earlier = 1 := by omega
    · have upcoming : (machine.stepped 0).upcoming = .ok (.loadImmediate 1 2) := by decide +kernel
      exact not_changesProgram upcoming not_false
    · have upcoming : (machine.stepped 1).upcoming = .ok (.load 2 0 1) := by decide +kernel
      exact not_changesProgram upcoming not_false
  obtain ⟨listing, found, events, same, loaded, alike⟩ :=
    runs_listing assembled short read { input := [] } memory
  obtain rfl : found = machine := by
    rw [loaded] at computed
    exact Except.ok.inj computed
  obtain ⟨-, -, -, registers, -⟩ := alike 2 keeps
  exact ⟨assembled, short, read, memory, listing, machine, events, same, loaded, keeps, registers,
    by decide +kernel⟩

/-- If the step limit is reached just when the program counter leaves the program, it is the limit
that the machine reports. -/
theorem limit_before_end :
    let source : List (Instr Nat) := [.loadImmediate 0 0]
    let words : List Word := [0xD0000000]
    let image : List Delivery := [.chunk (Image.ofWords words)]
    ∃ machine events,
      source.map Instr.encode = words.map .ok ∧
      ofImage image { input := [] } { stepLimit := some 1 } = (.ok machine, events) ∧
      (∀ earlier < 1, ¬ (machine.stepped earlier).ChangesProgram) ∧
      (machine.stepped 1).status = .running ∧
      source.length ≤ (machine.stepped 1).pc.toNat ∧
      (machine.stepped 1).step.1 = .error (.stepLimitExceeded 1) ∧
      (machine.stepped 1).step.1 ≠ .error (.pcOutOfBounds 1 1) := by
  intro source words image
  let machine : Machine :=
    { store := ⟨#[some words.toArray], []⟩
      channels := { input := [] }
      config := { stepLimit := some 1 }
      log := #[.store (.mapped .program 1), .loaded 1] }
  have loaded : ofImage image { input := [] } { stepLimit := some 1 } =
      (.ok machine, [.store (.mapped .program 1), .loaded 1]) := by decide +kernel
  have keeps : ∀ earlier < 1, ¬ (machine.stepped earlier).ChangesProgram := by
    intro earlier before
    obtain rfl := Nat.lt_one_iff.mp before
    have upcoming : (machine.stepped 0).upcoming = .ok (.loadImmediate 0 0) := by decide +kernel
    exact not_changesProgram upcoming not_false
  exact ⟨machine, _, by decide +kernel, loaded, keeps, by decide +kernel, by decide +kernel,
    by decide +kernel, by decide +kernel⟩

end Machine

end UniversalMachine
