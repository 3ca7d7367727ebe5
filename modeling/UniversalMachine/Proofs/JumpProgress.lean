import UniversalMachine.Proofs.Executed
import UniversalMachine.Proofs.LoadedMachine
import UniversalMachine.Proofs.StoreEvents

/-!
# Progress between jumps

No instruction but a jump changes the length of the program or moves the program counter other than
to the next word. So the words ahead of the program counter are used up one by one, even if they are
overwritten on the way, and a program that goes on for ever jumps again and again.
-/

namespace UniversalMachine

/-- The number of words of the program, zero if there is none. -/
def Store.programLength (store : Store) : Nat :=
  (store.find? .program).elim 0 Array.size

theorem Store.programLength_of_find? {store : Store} {program : Segment}
    (mapped : store.find? .program = some program) : store.programLength = program.size := by
  rw [programLength, mapped, Option.elim_some]

theorem Store.programLength_eq (store : Store) :
    store.programLength = (store.lengths .program).getD 0 := by
  rw [programLength, lengths]
  cases store.find? .program <;> rfl

namespace Machine

variable {machine next : Machine} {count : Nat}

/-- The next step executes a jump. -/
def Jumps (machine : Machine) : Prop :=
  machine.executing?.map Instr.opcode = some .loadProgram

instance (machine : Machine) : Decidable machine.Jumps :=
  inferInstanceAs (Decidable (machine.executing?.map Instr.opcode = some .loadProgram))

/-- The number of words from the program counter to the end of the program. -/
def ahead (machine : Machine) : Nat :=
  machine.store.programLength - machine.pc.toNat

/-! ## One step -/

section Effect

variable {after : Machine} {instruction : Instruction} {way : Next}

/-- The program may be written to, but a segment that is mapped or unmapped is another one. -/
theorem Effect.programLength (effect : machine.Effect instruction (.ok way) after)
    (runnable : machine.store.Runnable) (straight : instruction.opcode ≠ .loadProgram) :
    after.store.programLength = machine.store.programLength := by
  cases effect with
  | wrote written =>
      rw [Store.programLength_eq, Store.programLength_eq, Store.lengths_write written]
  | mapped allocated =>
      have found := Store.find?_allocate allocated fun reused mem =>
        runnable.wellFormed.index_lt mem
      rw [Store.programLength, Store.programLength, found,
        if_neg (Ne.symm (runnable.fresh allocated).1)]
  | unmapped freed =>
      rw [Store.programLength, Store.programLength, Store.find?_free freed,
        if_neg (Ne.symm (Store.free_cases freed).1)]
  | jumped | installed => exact absurd rfl straight
  | computed | halted | delivered | received => rfl

theorem Effect.not_jump (effect : machine.Effect instruction (.ok way) after)
    (straight : instruction.opcode ≠ .loadProgram) (target : Word) : way ≠ .jump target := by
  cases effect with
  | jumped | installed => exact absurd rfl straight
  | computed | halted | wrote | mapped | unmapped | delivered | received => nofun

end Effect

/-- Without a jump a step leaves one word less ahead. -/
theorem step_ahead (runnable : machine.store.Runnable)
    (stepped : machine.step = (.ok .running, next)) (straight : ¬ machine.Jumps) :
    next.ahead + 1 = machine.ahead := by
  have running := (step_running stepped).1
  obtain ⟨instruction, way, after, upcoming, executed, settled⟩ := step_executed running stepped
  have executing := executing?_eq_some_iff.mpr ⟨running, upcoming⟩
  have no_jump : instruction.opcode ≠ .loadProgram := by
    intro same
    exact straight (by rw [Jumps, executing, Option.map_some, same])
  have effect := effect_of_execute executed
  have length : after.store.programLength = machine.store.programLength :=
    effect.programLength runnable no_jump
  obtain rfl : way = .advance := by
    cases way with
    | advance => rfl
    | jump target => exact absurd rfl (effect.not_jump no_jump target)
    | halt => cases settled
  have pc : after.pc = machine.pc := effect.frame.1
  have room := pc_succ_lt runnable upcoming
  have moved : (machine.pc + 1).toNat = machine.pc.toNat + 1 := by
    rw [UInt32.toNat_add]
    exact Nat.mod_eq_of_lt room
  have inside : machine.pc.toNat < machine.store.programLength := by
    obtain ⟨word, fetched, -⟩ := fetch_cases (fetch_of_upcoming upcoming)
    obtain ⟨program, mapped, cell⟩ := Store.read_cases fetched
    rw [Store.programLength_of_find? mapped]
    exact (Array.getElem?_eq_some_iff.mp cell).1
  cases settled
  rw [ahead, ahead, pc, moved, length]
  omega

/-! ## Many steps -/

/-- Steps without a jump use up the words ahead. -/
theorem RunsFor.ahead (runs : machine.RunsFor count) (runnable : machine.store.Runnable)
    (straight : ∀ earlier < count, ¬ (machine.stepped earlier).Jumps) :
    (machine.stepped count).ahead + count = machine.ahead := by
  induction count with
  | zero => rfl
  | succ count ih =>
      have before := runs.mono (Nat.le_succ count)
      have used := step_ahead (before.runnable runnable) runs.step
        (straight count (Nat.lt_succ_self count))
      have earlier := ih before fun earlier lt => straight earlier (Nat.lt_succ_of_lt lt)
      omega

/-- More steps than there are words ahead are not possible without a jump. -/
theorem exists_jump (runnable : machine.store.Runnable) (runs : machine.RunsFor count)
    (many : machine.ahead < count) : ∃ earlier < count, (machine.stepped earlier).Jumps := by
  by_contra straight
  have used := runs.ahead runnable fun earlier lt jumps => straight ⟨earlier, lt, jumps⟩
  omega

/-- A jump is counted. -/
theorem count_of_jumps (jumps : machine.Jumps) :
    machine.step.2.profile.count .loadProgram = machine.profile.count .loadProgram + 1 := by
  have executing : machine.executing?.map Instr.opcode = some .loadProgram := jumps
  rw [count_step, if_pos executing]

/-- A run without end counts as many jumps as one likes. -/
theorem count_jumps (runnable : machine.store.Runnable)
    (forever : ∀ count, (machine.stepped count).status = .running) (bound : Nat) :
    ∃ count, bound ≤ (machine.stepped count).profile.count .loadProgram := by
  induction bound with
  | zero => exact ⟨0, Nat.zero_le _⟩
  | succ bound ih =>
      obtain ⟨count, reached⟩ := ih
      let now := machine.stepped count
      have goes_on : now.RunsFor (now.ahead + 1) := by
        apply runsFor_of_running
        rw [← stepped_add]
        exact forever _
      have still : now.store.Runnable := (runsFor_of_running (forever count)).runnable runnable
      obtain ⟨later, -, jumps⟩ := exists_jump still goes_on (Nat.lt_succ_self now.ahead)
      have kept : (machine.stepped count).profile.count .loadProgram ≤
          (now.stepped later).profile.count .loadProgram := now.count_mono .loadProgram later
      have counted := count_of_jumps jumps
      rw [← stepped_succ, ← stepped_add] at counted
      exact ⟨count + (later + 1), by omega⟩

/-- Between two jumps a loaded machine executes no more instructions than the program has words from
the program counter on. So a machine that never executes a jump stops within as many steps as the
program has words and one more, and a machine that never stops executes jumps without end. -/
theorem jumps_bound_progress {image : List Delivery} {channels : Channels} {config : Config}
    {events : List Event} (loaded : ofImage image channels config = (.ok machine, events)) :
    (∀ count, (machine.stepped count).status = .running →
      let now := machine.stepped count
      ∃ program, now.store.find? .program = some program ∧
        ∀ more, now.RunsFor more → (∀ earlier < more, ¬ (now.stepped earlier).Jumps) →
          more ≤ program.size - now.pc.toNat) ∧
    (∃ program, machine.store.find? .program = some program ∧
      ((∀ count, ¬ (machine.stepped count).Jumps) →
        let last := machine.stepped (program.size + 1)
        last.status = .halted ∨ last.status = .failed)) ∧
    ((∀ count, (machine.stepped count).status = .running) →
      ∀ bound, ∃ count, bound < (machine.stepped count).profile.count .loadProgram) := by
  have runnable := runnable_ofImage loaded
  refine ⟨?_, ?_, ?_⟩
  · intro count running now
    have still : now.store.Runnable := (runsFor_of_running running).runnable runnable
    obtain ⟨program, mapped⟩ := still.program
    refine ⟨program, mapped, ?_⟩
    intro more runs straight
    have used := runs.ahead still straight
    rw [← Store.programLength_of_find? mapped]
    exact Nat.le_of_add_left_le (Nat.le_of_eq used)
  · obtain ⟨program, mapped⟩ := runnable.program
    refine ⟨program, mapped, ?_⟩
    intro straight last
    have stopped : last.status ≠ .running := by
      intro running
      have used := (runsFor_of_running running).ahead runnable fun earlier _ => straight earlier
      have length := Store.programLength_of_find? mapped
      have most : machine.ahead ≤ machine.store.programLength := Nat.sub_le _ _
      omega
    cases status : last.status with
    | running => exact absurd status stopped
    | halted => exact .inl rfl
    | failed => exact .inr rfl
  · intro forever bound
    obtain ⟨count, reached⟩ := count_jumps runnable forever (bound + 1)
    exact ⟨count, reached⟩

/-- A program that overwrites its last word, a halt, maps a segment, and then stops past its end;
and a program that is a jump to itself. -/
theorem jumps_bound_progress_rewriting :
    (∃ machine events,
      ofImage [.chunk [0xD2, 0, 0, 3, 0x20, 0, 0, 9, 0x80, 0, 0, 0x11, 0x70, 0, 0, 0]]
        { input := [] } {} = (.ok machine, events) ∧
      (∀ count, ¬ (machine.stepped count).Jumps) ∧
      ∃ program, machine.store.find? .program = some program ∧
        ((machine.stepped (program.size + 1)).status = .halted ∨
          (machine.stepped (program.size + 1)).status = .failed)) ∧
    (∃ machine events,
      ofImage [.chunk [0xC0, 0, 0, 0]] { input := [] } {} = (.ok machine, events) ∧
      (∀ count, (machine.stepped count).status = .running) ∧
      ∀ bound, ∃ count, bound < (machine.stepped count).profile.count .loadProgram) := by
  constructor
  · let machine : Machine :=
      { store := ⟨#[some #[0xD2000003, 0x20000009, 0x80000011, 0x70000000]], []⟩
        channels := { input := [] }
        log := #[.store (.mapped .program 4), .loaded 4] }
    have loaded :
        ofImage [.chunk [0xD2, 0, 0, 3, 0x20, 0, 0, 9, 0x80, 0, 0, 0x11, 0x70, 0, 0, 0]]
          { input := [] } {} = (.ok machine, [.store (.mapped .program 4), .loaded 4]) := by
      decide +kernel
    have first_steps : ∀ earlier < 5, ¬ (machine.stepped earlier).Jumps := by decide +kernel
    have stopped : (machine.stepped 5).status ≠ .running := by decide +kernel
    have straight (count : Nat) : ¬ (machine.stepped count).Jumps := by
      rcases Nat.lt_or_ge count 5 with before | after
      · exact first_steps count before
      · obtain ⟨more, rfl⟩ := Nat.exists_eq_add_of_le after
        rw [stepped_add, stepped_of_stopped stopped, Jumps, executing?_of_stopped stopped]
        nofun
    obtain ⟨-, ⟨program, mapped, stops⟩, -⟩ := jumps_bound_progress loaded
    exact ⟨machine, _, loaded, straight, program, mapped, stops straight⟩
  · let machine : Machine :=
      { store := ⟨#[some #[0xC0000000]], []⟩
        channels := { input := [] }
        log := #[.store (.mapped .program 1), .loaded 1] }
    have loaded : ofImage [.chunk [0xC0, 0, 0, 0]] { input := [] } {} =
        (.ok machine, [.store (.mapped .program 1), .loaded 1]) := by decide +kernel
    have upcoming : machine.upcoming = .ok (.loadProgram 0 0) := by decide +kernel
    have same (count : Nat) :
        ∃ profile log, machine.stepped count = { machine with profile, log } := by
      induction count with
      | zero => exact ⟨_, _, rfl⟩
      | succ count ih =>
          obtain ⟨profile, log, here⟩ := ih
          have fetched : { machine with profile, log }.upcoming = .ok (.loadProgram 0 0) := upcoming
          rw [stepped_succ, here, step_of_executed rfl fetched rfl]
          exact ⟨_, _, rfl⟩
    have forever (count : Nat) : (machine.stepped count).status = .running := by
      obtain ⟨profile, log, here⟩ := same count
      rw [here]
    exact ⟨machine, _, loaded, forever, (jumps_bound_progress loaded).2.2 forever⟩

end Machine

end UniversalMachine
