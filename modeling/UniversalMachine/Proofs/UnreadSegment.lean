import UniversalMachine.Proofs.OneSegment
import UniversalMachine.Proofs.SideBySide
import Mathlib.Data.Set.Insert

/-!
# Words that are not read

What is in a segment reaches the rest of the machine in two ways only: a cell is loaded from it, or
it becomes the program. Two machines that differ in the words of one segment do the same for as
long as neither happens to that segment. Where it is written to they come to hold the same words,
and once it is unmapped or the machine stops nothing of the difference is left.
-/

namespace UniversalMachine

namespace Machine

/-! ## Instructions that look into a segment -/

/-- An instruction loads a cell of the segment, or makes a copy of it the program. -/
def LooksInto (machine : Machine) (handle : Handle) : Instruction → Prop
  | .load _ seg _ => machine.handle seg = handle
  | .loadProgram seg _ => machine.handle seg = handle
  | _ => False

/-- The next step executes such an instruction. -/
def Reads (machine : Machine) (handle : Handle) : Prop :=
  machine.status = .running ∧
    ∃ instruction, machine.upcoming = .ok instruction ∧ machine.LooksInto handle instruction

/-- The next step puts a word into a cell of the segment. -/
def Writes (machine : Machine) (handle : Handle) (offset : Word) : Prop :=
  machine.step.1 = .ok .running ∧
    ∃ seg position val, machine.upcoming = .ok (.store seg position val) ∧
      machine.handle seg = handle ∧ machine.word position = offset

/-! ## Machines that differ in one segment -/

/-- The machine with other words in one segment. -/
def withSegment (machine : Machine) (handle : Handle) (words : Segment) : Machine :=
  { machine with store := machine.store.withSegment handle words }

/-- The machines are the same, or they still run and are the same but for the words of a segment,
of which there are as many in both. At the given offsets these are the same too. -/
inductive UpToSegment (handle : Handle) (offsets : Set Word) : Machine → Machine → Prop where
  | same (machine : Machine) : UpToSegment handle offsets machine machine
  | apart {machine : Machine} {old words : Segment} (running : machine.status = .running)
      (found : machine.store.find? handle = some old) (size : words.size = old.size)
      (alike : ∀ offset ∈ offsets, words[offset.toNat]? = old[offset.toNat]?) :
      UpToSegment handle offsets machine (machine.withSegment handle words)

variable {machine other : Machine} {handle : Handle} {offsets : Set Word}

theorem UpToSegment.mono {more : Set Word} (related : UpToSegment handle more machine other)
    (subset : offsets ⊆ more) : UpToSegment handle offsets machine other := by
  cases related with
  | same => exact .same _
  | apart running found size alike =>
      exact .apart running found size fun offset known => alike offset (subset known)

theorem coupling_upToSegment (handle : Handle) (offsets : Set Word) :
    Coupling (UpToSegment handle offsets) where
  pc related := by
    cases related <;> rfl
  status related := by
    cases related <;> rfl
  move related pc := by
    cases related with
    | same => exact .same _
    | apart running found size alike => exact .apart running found size alike
  stop related status := by
    cases related with
    | same => exact .same _
    | apart => exact .same _

theorem unseen_withSegment (handle : Handle) (words : Segment) :
    Unseen fun machine => machine.withSegment handle words where
  registers _ := rfl
  channels _ := rfl
  outputPolicy _ := rfl
  put _ _ _ := rfl
  exchange _ _ := rfl

/-! ## One instruction -/

section Apart

variable {old words : Segment} (running : machine.status = .running)
  (found : machine.store.find? handle = some old) (size : words.size = old.size)
  (alike : ∀ offset ∈ offsets, words[offset.toNat]? = old[offset.toNat]?)
include running found size alike

theorem load_upToSegment {target : Handle} (different : target ≠ handle) (out : Register)
    (offset : Word) :
    Together (UpToSegment handle offsets) (machine.load out target offset)
      ((machine.withSegment handle words).load out target offset) := by
  simp only [load, withSegment, Store.read_withSegment different]
  cases machine.store.read target offset with
  | ok word => exact ⟨rfl, .apart running found size alike⟩
  | error fault => exact ⟨rfl, .apart running found size alike⟩

/-- A word that is written into the segment is in both from then on. -/
theorem write_upToSegment_self (offset word : Word) :
    Together (UpToSegment handle (insert offset offsets))
      (machine.takeStore.2.resume (machine.store.write handle offset word))
      ((machine.withSegment handle words).takeStore.2.resume
        ((machine.store.withSegment handle words).write handle offset word)) := by
  rw [Store.write_withSegment_self found size]
  cases written : machine.store.write handle offset word with
  | error fault => exact ⟨rfl, .same _⟩
  | ok next =>
      have names := Store.find?_write written handle
      rw [if_pos rfl, found] at names
      refine ⟨rfl, .apart running names ?_ ?_⟩
      · rw [Array.size_setIfInBounds, Array.size_setIfInBounds, size]
      · intro position known
        rw [Array.getElem?_setIfInBounds, Array.getElem?_setIfInBounds, size]
        rcases known with rfl | known
        · rw [if_pos rfl, if_pos rfl]
        · rw [alike position known]

theorem write_upToSegment {target : Handle} (different : target ≠ handle) (offset word : Word) :
    Together (UpToSegment handle offsets)
      (machine.takeStore.2.resume (machine.store.write target offset word))
      ((machine.withSegment handle words).takeStore.2.resume
        ((machine.store.withSegment handle words).write target offset word)) := by
  rw [Store.write_withSegment different]
  cases written : machine.store.write target offset word with
  | error fault => exact ⟨rfl, .same _⟩
  | ok next =>
      have names := Store.find?_write written handle
      rw [if_neg (Ne.symm different), found] at names
      exact ⟨rfl, .apart running names size alike⟩

theorem map_upToSegment (out : Register) (length : Nat) :
    Together (UpToSegment handle offsets) (machine.map out length)
      ((machine.withSegment handle words).map out length) := by
  simp only [map, hasMemory, takeStore, withSegment]
  by_cases waits : machine.store.reusable.head? = some handle
  -- In a store that is not well formed a mapped handle can wait, and then it gets zeros in both.
  · rw [Store.allocate_withSegment_of_stack waits]
    exact ⟨rfl, .same _⟩
  · rw [Store.allocate_withSegment (Store.index_lt_of_find? found) waits]
    cases allocated : machine.store.allocate length _ with
    | error fault => exact ⟨rfl, .same _⟩
    | ok answer =>
        have names := Store.find?_allocate_of_ne waits found allocated
        exact ⟨rfl, .apart running names size alike⟩

/-- Unmapping the segment itself leaves nothing of the difference. -/
theorem unmap_upToSegment (target : Handle) :
    Together (UpToSegment handle offsets) (machine.unmap target)
      ((machine.withSegment handle words).unmap target) := by
  simp only [unmap, takeStore, withSegment]
  by_cases here : target = handle
  · subst here
    rw [Store.free_withSegment_self found]
    exact ⟨rfl, .same _⟩
  · rw [Store.free_withSegment here]
    cases freed : machine.store.free target with
    | error fault => exact ⟨rfl, .same _⟩
    | ok next =>
        have names := Store.find?_free freed handle
        rw [if_neg (Ne.symm here), found] at names
        exact ⟨rfl, .apart running names size alike⟩

theorem jump_upToSegment (program : handle ≠ .program) {target : Handle}
    (different : target ≠ handle) (pc : Word) :
    Together (UpToSegment handle offsets) (machine.jump target pc)
      ((machine.withSegment handle words).jump target pc) := by
  simp only [jump, takeStore, withSegment]
  by_cases itself : target = .program
  · rw [if_pos itself, if_pos itself]
    exact ⟨rfl, .apart running found size alike⟩
  · rw [if_neg itself, if_neg itself, Store.install_withSegment different program]
    cases installed : machine.store.install target with
    | error fault => exact ⟨rfl, .same _⟩
    | ok next =>
        have names := Store.find?_install installed handle
        rw [if_neg program, found] at names
        simp only [Except.map, Store.find?_withSegment_of_ne different]
        exact ⟨rfl, .apart running names size alike⟩

end Apart

theorem execute_store_upToSegment (related : UpToSegment handle offsets machine other)
    {seg : Register} (offset val : Register) (here : machine.handle seg = handle) :
    Together (UpToSegment handle (insert (machine.word offset) offsets))
      (machine.execute (.store seg offset val)) (other.execute (.store seg offset val)) := by
  cases related with
  | same => exact ⟨rfl, .same _⟩
  | apart running found size alike =>
      subst here
      exact write_upToSegment_self running found size alike ..

/-- An instruction that does not look into the segment does not see the difference. -/
theorem execute_upToSegment (program : handle ≠ .program)
    (related : UpToSegment handle offsets machine other) {instruction : Instruction}
    (unread : ¬ machine.LooksInto handle instruction) :
    Together (UpToSegment handle offsets) (machine.execute instruction)
      (other.execute instruction) := by
  cases related with
  | same => exact ⟨rfl, .same _⟩
  | apart running found size alike =>
      cases instruction with
      | load => exact load_upToSegment running found size alike unread ..
      | store seg offset val =>
          by_cases here : machine.handle seg = handle
          · obtain ⟨answer, kept⟩ := execute_store_upToSegment
              (.apart running found size alike) offset val here
            exact ⟨answer, kept.mono (Set.subset_insert _ _)⟩
          · exact write_upToSegment running found size alike here ..
      | map => exact map_upToSegment running found size alike ..
      | unmap => exact unmap_upToSegment running found size alike _
      | loadProgram => exact jump_upToSegment running found size alike program unread _
      | conditionalMove | add | multiply | divide | nand | halt | output | input
      | loadImmediate =>
          rw [(unseen_withSegment handle _).execute machine (by simp [Instr.opcode])]
          refine ⟨rfl, .apart ?_ ?_ size alike⟩
          · exact (hasEffect_execute machine _).frame.2.2.2.trans running
          · rwa [execute_store machine (by simp [Instr.opcode])]

/-! ## One step -/

theorem upcoming_withSegment (program : handle ≠ .program) (machine : Machine) (words : Segment) :
    (machine.withSegment handle words).upcoming = machine.upcoming := by
  simp only [upcoming, fetch, withSegment, Store.program, Store.segment_withSegment program.symm]

theorem UpToSegment.upcoming (program : handle ≠ .program)
    (related : UpToSegment handle offsets machine other) : other.upcoming = machine.upcoming := by
  cases related with
  | same => rfl
  | apart => exact upcoming_withSegment program machine _

theorem UpToSegment.enter (related : UpToSegment handle offsets machine other)
    (instruction : Instruction) :
    UpToSegment handle offsets (machine.enter instruction) (other.enter instruction) := by
  cases related with
  | same => exact .same _
  | apart running found size alike => exact .apart running found size alike

theorem step_upToSegment (program : handle ≠ .program)
    (related : UpToSegment handle offsets machine other) (unread : ¬ machine.Reads handle) :
    Together (UpToSegment handle offsets) machine.step other.step := by
  refine (coupling_upToSegment handle offsets).step related
    (fun _ => related.upcoming program) ?_
  intro running instruction upcoming
  apply execute_upToSegment program (related.enter instruction)
  exact fun looks => unread ⟨running, instruction, upcoming, looks⟩

/-- A cell of the segment that is written to holds the same word in both machines. -/
theorem step_of_writes (program : handle ≠ .program)
    (related : UpToSegment handle offsets machine other) {offset : Word}
    (writes : machine.Writes handle offset) :
    UpToSegment handle (insert offset offsets) machine.step.2 other.step.2 := by
  obtain ⟨answer, seg, position, val, upcoming, here, rfl⟩ := writes
  have executed := execute_store_upToSegment (related.enter (.store seg position val)) position val
    here
  have status := (coupling_upToSegment handle offsets).status related
  have upcoming_too := (related.upcoming program).trans upcoming
  cases related with
  | same => exact .same _
  | apart running =>
      exact ((coupling_upToSegment _ _).step_of_upcoming running (status.trans running) upcoming
        upcoming_too executed).2

/-! ## Many steps -/

section Steps

variable {count : Nat} (program : handle ≠ .program)
  (unread : ∀ earlier < count, ¬ (machine.stepped earlier).Reads handle)
include program unread

theorem stepped_upToSegment (related : UpToSegment handle offsets machine other) :
    (∀ earlier < count, other.answer earlier = machine.answer earlier) ∧
      UpToSegment handle offsets (machine.stepped count) (other.stepped count) :=
  stepped_together related fun earlier before _ kept =>
    step_upToSegment program kept (unread earlier before)

/-- What the machines have in common at some time they have in common from then on. -/
theorem upToSegment_of_le {start : Nat} (le : start ≤ count)
    (related : UpToSegment handle offsets (machine.stepped start) (other.stepped start)) :
    UpToSegment handle offsets (machine.stepped count) (other.stepped count) := by
  obtain ⟨more, rfl⟩ := Nat.exists_eq_add_of_le le
  rw [stepped_add, stepped_add]
  refine (stepped_upToSegment program ?_ related).2
  intro earlier before
  rw [← stepped_add]
  exact unread (start + earlier) (Nat.add_lt_add_left before start)

end Steps

namespace UpToSegment

variable (related : UpToSegment handle offsets machine other)
include related

theorem eq_withStore : other = { machine with store := other.store } := by
  cases related <;> rfl

theorem reusable : other.store.reusable = machine.store.reusable := by
  cases related <;> rfl

theorem find?_of_ne {target : Handle} (different : target ≠ handle) :
    other.store.find? target = machine.store.find? target := by
  cases related with
  | same => rfl
  | apart => exact Store.find?_withSegment_of_ne different

/-- The same handles are mapped, to segments of the same lengths. -/
theorem size (target : Handle) :
    (other.store.find? target).map Array.size = (machine.store.find? target).map Array.size := by
  by_cases here : target = handle
  · subst here
    cases related with
    | same => rfl
    | @apart old words running found size alike =>
        have found_too := Store.find?_withSegment (Store.index_lt_of_find? found) words
        rw [withSegment, found_too, found, Option.map_some, Option.map_some, size]
  · rw [related.find?_of_ne here]

theorem read {offset : Word} (known : offset ∈ offsets) :
    other.store.read handle offset = machine.store.read handle offset := by
  cases related with
  | same => rfl
  | @apart old words running found size alike =>
      have found_too := Store.find?_withSegment (Store.index_lt_of_find? found) words
      rw [withSegment, Store.read, Store.read, Store.segment_of_find? found,
        Store.segment_of_find? found_too]
      simp only [alike offset known, size]

/-- Nothing of the difference is left where there is no segment for it to be in. -/
theorem eq_of_ended (ended : machine.status ≠ .running ∨ machine.store.find? handle = none) :
    other = machine := by
  cases related with
  | same => rfl
  | apart running found =>
      rcases ended with stopped | unmapped
      · exact absurd running stopped
      · rw [unmapped] at found
        cases found

end UpToSegment

/-- The words of a segment leak through loads alone. A running machine is given other words in
one segment that is not the program, as many as before. As long as no step loads from the segment
or makes it the program, the two machines answer alike, and after the steps they are the same but
for the store. There the same handles are mapped to segments of the same length and the same ones
will be used again, the other segments have the same words, and so do the cells of this one that
were written to. Once the segment has been unmapped or the machine has stopped they are the same
altogether. -/
theorem contents_leak_through_loads {old words : Segment} {count : Nat}
    (running : machine.status = .running) (program : handle ≠ .program)
    (found : machine.store.find? handle = some old) (size : words.size = old.size)
    (unread : ∀ earlier < count, ¬ (machine.stepped earlier).Reads handle) :
    let other := machine.withSegment handle words
    let now := machine.stepped count
    let other_now := other.stepped count
    (∀ earlier < count, other.answer earlier = machine.answer earlier) ∧
    other_now = { now with store := other_now.store } ∧
    other_now.store.reusable = now.store.reusable ∧
    (∀ target, (other_now.store.find? target).map Array.size =
      (now.store.find? target).map Array.size) ∧
    (∀ target ≠ handle, other_now.store.find? target = now.store.find? target) ∧
    (∀ offset, (∃ earlier < count, (machine.stepped earlier).Writes handle offset) →
      other_now.store.read handle offset = now.store.read handle offset) ∧
    ((∃ earlier ≤ count, (machine.stepped earlier).status ≠ .running ∨
      (machine.stepped earlier).store.find? handle = none) → other_now = now) := by
  intro other now other_now
  have start : UpToSegment handle ∅ machine other :=
    .apart running found size fun offset known => absurd known (Set.notMem_empty offset)
  have until_then (earlier : Nat) (le : earlier ≤ count) :=
    stepped_upToSegment program (fun sooner before => unread sooner (before.trans_le le)) start
  obtain ⟨answers, related⟩ := until_then count le_rfl
  refine ⟨answers, related.eq_withStore, related.reusable, related.size,
    fun target different => related.find?_of_ne different, ?_, ?_⟩
  · rintro offset ⟨earlier, before, writes⟩
    have written := step_of_writes program (until_then earlier before.le).2 writes
    rw [← stepped_succ, ← stepped_succ] at written
    have since := upToSegment_of_le program unread before written
    exact since.read (Set.mem_insert offset ∅)
  · rintro ⟨earlier, le, ended⟩
    have gone := (until_then earlier le).2.eq_of_ended ended
    obtain ⟨more, rfl⟩ := Nat.exists_eq_add_of_le le
    simp only [now, other_now, stepped_add, gone]

/-- A program writes the first of two cells, unmaps the segment and maps it again. The second cell
shows the difference until then. -/
theorem contents_leak_through_loads_mapped_again :
    let program : Segment := #[0xD2000001, 0x20000041, 0x90000001, 0x80000019, 0x70000000]
    let machine : Machine :=
      { store := ⟨#[some program, some #[7, 8]], []⟩, channels := { input := [] }, config := {} }
    let other := machine.withSegment ⟨1⟩ #[5, 6]
    (other.stepped 2).store.read ⟨1⟩ 0 = (machine.stepped 2).store.read ⟨1⟩ 0 ∧
    (other.stepped 2).store.read ⟨1⟩ 1 ≠ (machine.stepped 2).store.read ⟨1⟩ 1 ∧
    other.stepped 4 = machine.stepped 4 ∧
    (machine.stepped 4).store.find? ⟨1⟩ = some #[0] := by
  intro program machine other
  have listed : ∀ earlier < 4, ∃ instruction ∈ ([.loadImmediate 1 1, .store 1 0 1, .unmap 1,
      .map 3 1] : List Instruction), (machine.stepped earlier).upcoming = .ok instruction := by
    decide +kernel
  have unread : ∀ earlier < 4, ¬ (machine.stepped earlier).Reads ⟨1⟩ := by
    rintro earlier before ⟨-, instruction, upcoming, looks⟩
    obtain ⟨instruction, member, same⟩ := listed earlier before
    cases upcoming.symm.trans same
    simp only [List.mem_cons, List.not_mem_nil, or_false] at member
    rcases member with rfl | rfl | rfl | rfl <;> exact looks
  have leaks (count : Nat) (le : count ≤ 4) :=
    @contents_leak_through_loads machine ⟨1⟩ #[7, 8] #[5, 6] count rfl (by decide)
      (by decide +kernel) rfl fun earlier before => unread earlier (before.trans_le le)
  obtain ⟨-, -, -, -, -, written, -⟩ := leaks 2 (by decide)
  obtain ⟨-, -, -, -, -, -, gone⟩ := leaks 4 le_rfl
  refine ⟨written 0 ⟨1, by decide, ?_⟩, by decide +kernel, gone ⟨3, by decide, ?_⟩,
    by decide +kernel⟩
  · exact ⟨by decide +kernel, 1, 0, 1, by decide +kernel⟩
  · exact .inr (by decide +kernel)

end Machine

end UniversalMachine
