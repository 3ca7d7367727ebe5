import UniversalMachine.Proofs.Executed
import UniversalMachine.Proofs.LoadedMachine

/-!
# What the profile tells of the store and the output

Each segment but the program was mapped by an instruction, each instruction that unmaps takes one
away, and each output instruction writes one byte. So as long as a loaded machine runs, its profile
tells how many segments there are and how many bytes were written.
-/

namespace UniversalMachine

namespace Store

/-! ## The number of segments -/

variable {store next : Store} {handle : Handle}

theorem liveCount_pos {words : Segment} (found : store.find? handle = some words) :
    0 < store.liveCount := by
  obtain ⟨inside, entry⟩ := Array.getElem?_eq_some_iff.mp (find?_eq_some_iff.mp found)
  rw [liveCount, Array.countP_pos_iff]
  exact ⟨_, Array.getElem_mem inside, by rw [entry]; rfl⟩

namespace WellFormed

/-- Either a gap is filled or the table grows. -/
theorem liveCount_allocate (wf : store.WellFormed) {length : Nat} {memory : Bool}
    (allocated : store.allocate length memory = .ok (handle, next)) :
    next.liveCount = store.liveCount + 1 := by
  have before := wf.liveCount_add
  have after := (wf.allocate allocated).liveCount_add
  obtain ⟨rest, stack, rfl⟩ | ⟨stack, -, -, rfl⟩ := allocate_cases allocated
  · simp only [stack, List.length_cons, Array.size_setIfInBounds] at before after
    omega
  · simp only [stack, List.length_nil, Array.size_push] at before after
    omega

theorem liveCount_free (wf : store.WellFormed) (freed : store.free handle = .ok next) :
    next.liveCount + 1 = store.liveCount := by
  have before := wf.liveCount_add
  have after := (wf.free freed).liveCount_add
  obtain ⟨-, -, rfl⟩ := free_cases freed
  simp only [List.length_cons, Array.size_setIfInBounds] at after
  omega

theorem liveCount_write (wf : store.WellFormed) {offset word : Word}
    (written : store.write handle offset word = .ok next) :
    next.liveCount = store.liveCount := by
  have before := wf.liveCount_add
  have after := (wf.write written).liveCount_add
  obtain ⟨words, -, -, rfl⟩ := write_cases written
  simp only [Array.size_setIfInBounds] at after
  omega

theorem liveCount_install (wf : store.WellFormed) (installed : store.install handle = .ok next) :
    next.liveCount = store.liveCount := by
  have before := wf.liveCount_add
  have after := (wf.install installed).liveCount_add
  obtain ⟨words, -, ⟨-, rfl⟩ | ⟨-, rfl⟩⟩ := install_cases installed
  · rfl
  · simp only [Array.size_setIfInBounds] at after
    omega

end WellFormed

end Store

namespace Machine

/-! ## One instruction -/

section Effect

variable {machine after : Machine} {instruction : Instruction} {way : Next}

theorem Effect.liveCount (effect : machine.Effect instruction (.ok way) after)
    (wf : machine.store.WellFormed) :
    after.store.liveCount + (if instruction.opcode = .unmap then 1 else 0) =
      machine.store.liveCount + (if instruction.opcode = .map then 1 else 0) := by
  cases effect with
  | computed inner =>
      have neither : instruction.opcode ≠ .map ∧ instruction.opcode ≠ .unmap := by
        constructor <;> intro same <;> simp [same] at inner
      rw [if_neg neither.1, if_neg neither.2]
  | wrote written => exact wf.liveCount_write written
  | mapped allocated => exact wf.liveCount_allocate allocated
  | unmapped freed => exact wf.liveCount_free freed
  | installed other installed => exact wf.liveCount_install installed
  | halted | jumped | delivered | received => rfl

theorem Effect.output (effect : machine.Effect instruction (.ok way) after) :
    ∃ bytes, after.channels.output = machine.channels.output ++ bytes ∧
      bytes.length = if instruction.opcode = .output then 1 else 0 := by
  cases effect with
  | computed inner =>
      have other : instruction.opcode ≠ .output := by
        intro same
        simp [same] at inner
      exact ⟨[], (List.append_nil _).symm, (if_neg other).symm⟩
  | @delivered val byte channels allowed delivered =>
      obtain ⟨writes, rfl⟩ := Channels.deliver_cases delivered
      exact ⟨[byte], Channels.output_push_byte .., rfl⟩
  | received received =>
      obtain ⟨flushes, -, rfl⟩ := Channels.receive_cases received
      exact ⟨[], (Channels.output_receive ..).trans (List.append_nil _).symm, rfl⟩
  | halted | wrote | mapped | unmapped | jumped | installed =>
      exact ⟨[], (List.append_nil _).symm, rfl⟩

end Effect

/-! ## Many steps -/

variable {machine next : Machine} {channels : Channels}

/-- The profile tells the number of segments, one of them the program, and the number of bytes that
were written to the channels. -/
structure Balanced (channels : Channels) (machine : Machine) : Prop where
  segments : machine.store.liveCount + machine.profile.count .unmap =
    1 + machine.profile.count .map
  bytes : ∃ bytes, machine.channels.output = channels.output ++ bytes ∧
    bytes.length = machine.profile.count .output

theorem balanced_ofImage {image : List Delivery} {config : Config} {events : List Event}
    (loaded : ofImage image channels config = (.ok machine, events)) :
    Balanced channels machine := by
  obtain ⟨store, read, rfl⟩ := ofImage_eq_ok loaded
  obtain ⟨bytes, -, -, rfl⟩ := Image.load_eq_ok read
  exact ⟨rfl, [], (List.append_nil _).symm, rfl⟩

theorem Balanced.step (balanced : Balanced channels machine) (wf : machine.store.WellFormed)
    (stepped : machine.step = (.ok .running, next)) : Balanced channels next := by
  have running := (step_running stepped).1
  obtain ⟨instruction, way, after, upcoming, executed, settled⟩ := step_executed running stepped
  have effect := effect_of_execute executed
  obtain ⟨same_store, same_channels⟩ :
      next.store = after.store ∧ next.channels = after.channels := by
    rw [settle_running settled]
    exact ⟨rfl, rfl⟩
  have counted (op : Opcode) : next.profile.count op =
      machine.profile.count op + if instruction.opcode = op then 1 else 0 := by
    rw [← count_of_executing (executing?_eq_some_iff.mpr ⟨running, upcoming⟩), stepped]
  constructor
  · have live : after.store.liveCount + _ = machine.store.liveCount + _ := effect.liveCount wf
    have before := balanced.segments
    rw [same_store, counted, counted]
    omega
  · obtain ⟨earlier, written, number⟩ := balanced.bytes
    obtain ⟨more, written_now, one⟩ := effect.output
    refine ⟨earlier ++ more, ?_, ?_⟩
    · rw [same_channels, written_now]
      exact (congrArg (· ++ more) written).trans (List.append_assoc ..)
    · rw [List.length_append, number, one, counted]

theorem RunsFor.balanced {count : Nat} (runs : machine.RunsFor count)
    (runnable : machine.store.Runnable) (balanced : Balanced channels machine) :
    Balanced channels (machine.stepped count) := by
  induction count with
  | zero => exact balanced
  | succ count ih =>
      have before := runs.mono (Nat.le_succ count)
      exact (ih before).step (before.runnable runnable).wellFormed runs.step

/-- What the profile tells of a loaded machine that still runs. It has counted each of the steps.
The segments are the program and one for each instruction that mapped a segment, less one for each
that unmapped one; there were no more of these than of the others. And one byte was written for each
output instruction. -/
theorem profile_tells_segments {image : List Delivery} {config : Config} {events : List Event}
    {count : Nat} (loaded : ofImage image channels config = (.ok machine, events))
    (running : (machine.stepped count).status = .running) :
    let now := machine.stepped count
    now.profile.steps = count ∧
    now.profile.count .unmap ≤ now.profile.count .map ∧
    now.store.liveCount = 1 + (now.profile.count .map - now.profile.count .unmap) ∧
    ∃ bytes, now.channels.output = channels.output ++ bytes ∧
      bytes.length = now.profile.count .output := by
  intro now
  have runs := runsFor_of_running running
  have runnable := runnable_ofImage loaded
  obtain ⟨segments, bytes⟩ : Balanced channels now :=
    runs.balanced runnable (balanced_ofImage loaded)
  have steps : now.profile.steps = machine.profile.steps + count := runs.steps.2.2
  have unused : machine.profile.steps = 0 := by
    rw [(ofImage_fresh loaded).2, Profile.steps_empty]
  obtain ⟨program, mapped⟩ := (runs.runnable runnable).program
  have live : 0 < now.store.liveCount := Store.liveCount_pos mapped
  refine ⟨?_, ?_, ?_, bytes⟩
  · omega
  · omega
  · omega

/-- A program that maps two segments, writes a byte, and unmaps one of the segments. -/
theorem profile_tells_segments_mapping :
    let image : List Delivery := [.chunk [0xD2, 0, 0, 0x41, 0x80, 0, 0, 0x11, 0x80, 0, 0, 0x19,
      0xA0, 0, 0, 1, 0x90, 0, 0, 2, 0x70, 0, 0, 0]]
    ∃ machine events,
      ofImage image { input := [] } {} = (.ok machine, events) ∧
      (machine.stepped 5).status = .running ∧
      (machine.stepped 5).profile.count .map = 2 ∧ (machine.stepped 5).profile.count .unmap = 1 ∧
      (machine.stepped 5).store.liveCount = 2 ∧
      (machine.stepped 5).channels.output.length = (machine.stepped 5).profile.count .output := by
  intro image
  let machine : Machine :=
    { store := ⟨#[some #[0xD2000041, 0x80000011, 0x80000019, 0xA0000001, 0x90000002, 0x70000000]],
        []⟩
      channels := { input := [] }
      log := #[.store (.mapped .program 6), .loaded 6] }
  have loaded : ofImage image { input := [] } {} =
      (.ok machine, [.store (.mapped .program 6), .loaded 6]) := by decide +kernel
  have running : (machine.stepped 5).status = .running := by decide +kernel
  have maps : (machine.stepped 5).profile.count .map = 2 := by decide +kernel
  have unmaps : (machine.stepped 5).profile.count .unmap = 1 := by decide +kernel
  obtain ⟨-, -, live, bytes, written, number⟩ := profile_tells_segments loaded running
  rw [maps, unmaps] at live
  refine ⟨machine, _, loaded, running, maps, unmaps, live, ?_⟩
  rw [written]
  exact number

end Machine

end UniversalMachine
