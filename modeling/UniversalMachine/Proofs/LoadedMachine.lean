import UniversalMachine.Proofs.FaultTable
import UniversalMachine.Proofs.ImageLoading

/-!
# The invariant of a loaded machine

A machine that was loaded has a program for as long as it runs, whatever the program does to
itself, and no segment is too long for an offset to address each of its cells. So the program
is never missed, a new segment never gets its handle, and the program counter does not wrap.
-/

namespace UniversalMachine

namespace Store

/-- A store that a machine can run on: there is a program, and an offset can address every cell
of every segment. -/
structure Runnable (store : Store) : Prop where
  wellFormed : store.WellFormed
  program : ∃ program, store.find? .program = some program
  short : ∀ handle words, store.find? handle = some words → words.size < UInt32.size

theorem runnable_ofProgram {program : Segment} (short : program.size < UInt32.size) :
    (ofProgram program).Runnable where
  wellFormed := by
    have blank := wellFormed_empty.allocate (allocate_empty 0)
    exact blank.overwrite (find?_ofProgram _ .program) program
  program := ⟨program, find?_ofProgram program .program⟩
  short := by
    intro handle words found
    rw [find?_ofProgram] at found
    split at found
    · cases found
      exact short
    · cases found

namespace Runnable

variable {store next : Store} {handle : Handle}

/-- A new segment gets a handle that named nothing, so never that of the program. -/
theorem fresh (runnable : store.Runnable) {length : Nat} {memory : Bool}
    (allocated : store.allocate length memory = .ok (handle, next)) :
    handle ≠ .program ∧ store.find? handle = none := by
  have free := runnable.wellFormed.find?_allocated allocated
  refine ⟨?_, free⟩
  rintro rfl
  obtain ⟨program, mapped⟩ := runnable.program
  rw [free] at mapped
  cases mapped

theorem allocate (runnable : store.Runnable) {length : Word} {memory : Bool}
    (allocated : store.allocate length.toNat memory = .ok (handle, next)) : next.Runnable := by
  have found := find?_allocate allocated fun reused mem => runnable.wellFormed.index_lt mem
  constructor
  · exact runnable.wellFormed.allocate allocated
  · rw [found, if_neg (Ne.symm (runnable.fresh allocated).1)]
    exact runnable.program
  · intro other words mapped
    rw [found] at mapped
    split at mapped
    · cases mapped
      rw [Array.size_replicate]
      exact length.toNat_lt_size
    · exact runnable.short other words mapped

theorem free (runnable : store.Runnable) (freed : store.free handle = .ok next) :
    next.Runnable := by
  have found := find?_free freed
  constructor
  · exact runnable.wellFormed.free freed
  · rw [found, if_neg (Ne.symm (free_cases freed).1)]
    exact runnable.program
  · intro other words mapped
    rw [found] at mapped
    split at mapped
    · cases mapped
    · exact runnable.short other words mapped

theorem write (runnable : store.Runnable) {offset word : Word}
    (written : store.write handle offset word = .ok next) : next.Runnable := by
  have found := find?_write written
  obtain ⟨old, before, -⟩ := write_cases written
  rw [before] at found
  constructor
  · exact runnable.wellFormed.write written
  · rw [found]
    split
    · exact ⟨_, rfl⟩
    · exact runnable.program
  · intro other words mapped
    rw [found] at mapped
    split at mapped
    · cases mapped
      rw [Array.size_setIfInBounds]
      exact runnable.short handle old before
    · exact runnable.short other words mapped

theorem install (runnable : store.Runnable) (installed : store.install handle = .ok next) :
    next.Runnable := by
  have found := find?_install installed
  obtain ⟨source, before, -⟩ := install_cases installed
  constructor
  · exact runnable.wellFormed.install installed
  · rw [found, if_pos rfl]
    exact ⟨source, before⟩
  · intro other words mapped
    rw [found] at mapped
    split at mapped
    · exact runnable.short handle words mapped
    · exact runnable.short other words mapped

/-- Whatever an instruction does that succeeds, the machine can run on what it leaves. -/
theorem effect {machine after : Machine} (runnable : machine.store.Runnable)
    {instruction : Instruction} {way : Next}
    (effect : machine.Effect instruction (.ok way) after) : after.store.Runnable := by
  cases effect with
  | wrote written => exact runnable.write written
  | mapped allocated => exact runnable.allocate allocated
  | unmapped freed => exact runnable.free freed
  | installed other installed => exact runnable.install installed
  | computed | halted | jumped | delivered | received => exact runnable

end Runnable

end Store

namespace Machine

variable {machine : Machine}

/-! ## From the image to a running machine -/

theorem runnable_ofImage {image : List Delivery} {channels : Channels} {config : Config}
    {events : List Event} (loaded : ofImage image channels config = (.ok machine, events)) :
    machine.store.Runnable := by
  obtain ⟨store, read, rfl⟩ := ofImage_eq_ok loaded
  obtain ⟨bytes, -, short, rfl⟩ := Image.load_eq_ok read
  exact Store.runnable_ofProgram short

theorem step_runnable {next : Machine} (runnable : machine.store.Runnable)
    (stepped : machine.step = (.ok .running, next)) : next.store.Runnable := by
  obtain ⟨instruction, way, after, -, executed, settled⟩ :=
    step_executed (step_running stepped).1 stepped
  have same : next.store = after.store := by rw [settle_running settled]
  rw [same]
  have entered : (machine.enter instruction).store.Runnable := runnable
  exact entered.effect (effect_of_execute executed)

theorem RunsFor.runnable {count : Nat} (runs : machine.RunsFor count)
    (runnable : machine.store.Runnable) : (machine.stepped count).store.Runnable := by
  induction count with
  | zero => exact runnable
  | succ count ih =>
      exact step_runnable (ih (runs.mono (Nat.le_succ count))) runs.step

/-! ## What the invariant rules out -/

/-- The program of a machine that started with one is never missing. -/
theorem answer_ne_unmapped_program (runnable : machine.store.Runnable) (count : Nat) :
    machine.answer count ≠ .error (.unmappedSegment .program) := by
  intro failed
  have running := (status_of_fault (Prod.ext failed rfl)).1
  have still := (runsFor_of_running running).runnable runnable
  -- Whichever row of the table the fault is from, the program would have to be unmapped.
  have missing := ((step_eq_error_iff still.wellFormed running).mp failed).unmapped
  obtain ⟨program, mapped⟩ := still.program
  rw [missing] at mapped
  cases mapped

/-- What a mapped segment holds can be read, cell by cell. -/
theorem read_of_runnable {store : Store} (runnable : store.Runnable) {handle : Handle}
    {words : Segment} (found : store.find? handle = some words) (i : Nat)
    (inside : i < words.size) : store.read handle (UInt32.ofNat i) = .ok words[i] := by
  have position : (UInt32.ofNat i).toNat = i := by
    apply UInt32.toNat_ofNat_of_lt'
    exact Nat.lt_trans inside (runnable.short handle words found)
  apply Store.read_of_getElem? found
  rw [position, Array.getElem?_eq_getElem inside]

/-- An instruction stands in the program, so there is an offset right behind it. -/
theorem pc_succ_lt (runnable : machine.store.Runnable) {instruction : Instruction}
    (upcoming : machine.upcoming = .ok instruction) : machine.pc.toNat + 1 < 2 ^ 32 := by
  obtain ⟨word, fetched, -⟩ := fetch_cases (fetch_of_upcoming upcoming)
  obtain ⟨program, mapped, cell⟩ := Store.read_cases fetched
  obtain ⟨inside, -⟩ := Array.getElem?_eq_some_iff.mp cell
  have short := runnable.short .program program mapped
  exact Nat.lt_of_le_of_lt inside short

/-- The handle that a new segment gets is not that of the program and named nothing before. -/
theorem step_map_fresh (runnable : machine.store.Runnable) (running : machine.status = .running)
    {out len : Register} {status : Status} {next : Machine}
    (upcoming : machine.upcoming = .ok (.map out len))
    (stepped : machine.step = (.ok status, next)) :
    next.handle out ≠ .program ∧ machine.store.find? (next.handle out) = none := by
  obtain ⟨instruction, way, after, entered, executed, settled⟩ := step_executed running stepped
  obtain rfl : .map out len = instruction := Except.ok.inj (upcoming.symm.trans entered)
  have registers : next.registers = after.registers := by
    have kept := (after.settle_frame way).1
    rw [settled] at kept
    exact kept
  have same : next.handle out = after.handle out := by
    rw [Machine.handle, registers]
  rw [same]
  cases effect_of_execute executed with
  | computed inner => simp [Instr.opcode] at inner
  | mapped allocated =>
      have fresh := runnable.fresh allocated
      simpa [Machine.handle] using fresh

/-- A machine that was loaded and still runs has a program, and an offset addresses every cell of
every segment it has. None of its steps will miss the program. A new segment does not get the
handle of the program, nor one that names something. And the program counter does not wrap when
it goes past an instruction. -/
theorem loaded_invariant {image : List Delivery} {channels : Channels} {config : Config}
    {machine : Machine} {events : List Event} {count : Nat}
    (loaded : ofImage image channels config = (.ok machine, events))
    (running : (machine.stepped count).status = .running) :
    let now := machine.stepped count
    (∃ program, now.store.find? .program = some program) ∧
    (∀ handle words, now.store.find? handle = some words →
      words.size ≤ 2 ^ 32 - 1 ∧
        ∀ i (inside : i < words.size), now.store.read handle (UInt32.ofNat i) = .ok words[i]) ∧
    (∀ later, now.answer later ≠ .error (.unmappedSegment .program)) ∧
    (∀ out len status next, now.upcoming = .ok (.map out len) → now.step = (.ok status, next) →
      next.handle out ≠ .program ∧ now.store.find? (next.handle out) = none) ∧
    (∀ instruction, now.upcoming = .ok instruction →
      now.pc.toNat + 1 < 2 ^ 32 ∧ (now.pc + 1).toNat = now.pc.toNat + 1) := by
  intro now
  have runnable : now.store.Runnable :=
    (runsFor_of_running running).runnable (runnable_ofImage loaded)
  refine ⟨runnable.program, ?_, answer_ne_unmapped_program runnable, ?_, ?_⟩
  · intro handle words found
    have short := runnable.short handle words found
    exact ⟨Nat.le_sub_one_of_lt short, read_of_runnable runnable found⟩
  · intro out len status next upcoming stepped
    exact step_map_fresh runnable running upcoming stepped
  · intro instruction upcoming
    have inside := pc_succ_lt runnable upcoming
    refine ⟨inside, ?_⟩
    rw [UInt32.toNat_add]
    exact Nat.mod_eq_of_lt inside

/-- A program that maps a segment of five words, with the handle and the length in one register,
after the step that puts the length there. -/
theorem loaded_invariant_mapping :
    let image : List Delivery := [.chunk [0xD2, 0, 0, 5, 0x80, 0, 0, 0x09, 0x70, 0, 0, 0]]
    ∃ machine events next,
      ofImage image { input := [] } {} = (.ok machine, events) ∧
      (machine.stepped 1).status = .running ∧
      (machine.stepped 1).upcoming = .ok (.map 1 1) ∧
      (machine.stepped 1).step = (.ok .running, next) ∧
      next.handle 1 ≠ .program ∧ (machine.stepped 1).store.find? (next.handle 1) = none := by
  intro image
  let machine : Machine :=
    { store := ⟨#[some #[0xD2000005, 0x80000009, 0x70000000]], []⟩
      channels := { input := [] }
      log := #[.store (.mapped .program 3), .loaded 3] }
  have loaded : ofImage image { input := [] } {} =
      (.ok machine, [.store (.mapped .program 3), .loaded 3]) := by decide +kernel
  have running : (machine.stepped 1).status = .running := by decide +kernel
  have upcoming : (machine.stepped 1).upcoming = .ok (.map 1 1) := by decide +kernel
  have answered : (machine.stepped 1).step.1 = .ok .running := by decide +kernel
  have stepped : (machine.stepped 1).step = (.ok .running, (machine.stepped 1).step.2) :=
    Prod.ext answered rfl
  obtain ⟨-, -, -, fresh, -⟩ := loaded_invariant loaded running
  exact ⟨machine, _, _, loaded, running, upcoming, stepped, fresh 1 1 _ _ upcoming stepped⟩

end Machine

end UniversalMachine
