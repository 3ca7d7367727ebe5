import UniversalMachine.Proofs.Executed
import UniversalMachine.Proofs.LoadedMachine
import UniversalMachine.Proofs.StoreEvents

/-!
# What the log tells of a run

The log of a run tells each instruction that was executed and each change of what is mapped, and at
its end how the run ended. Nothing that failed is told as if it had happened, and nothing is left
out but the release of all segments when the machine stops.
-/

namespace UniversalMachine

namespace Event

/-- The execution that an event tells of. -/
def execution? : Event → Option (Word × Instruction)
  | execute pc instruction => some (pc, instruction)
  | _ => none

/-- The change of what is mapped that an event tells of. -/
def change? : Event → Option Store.Event
  | store event => some event
  | _ => none

/-- An event that tells how a machine ended. -/
def closes : Event → Bool
  | halted .. | failed .. => true
  | _ => false

theorem filterMap_execution?_stores (changes : List Store.Event) :
    (changes.map store).filterMap execution? = [] := by
  rw [List.filterMap_map, List.filterMap_eq_nil_iff]
  exact fun _ _ => rfl

theorem filterMap_change?_stores (changes : List Store.Event) :
    (changes.map store).filterMap change? = changes := by
  rw [List.filterMap_map]
  exact List.filterMap_some

theorem filter_closes_stores (changes : List Store.Event) :
    (changes.map store).filter closes = [] := by
  rw [List.filter_eq_nil_iff]
  intro event mem
  obtain ⟨change, -, rfl⟩ := List.mem_map.mp mem
  exact Bool.false_ne_true

/-- An event that tells nothing of what happens to a machine between its start and its end. -/
def Aside (event : Event) : Prop :=
  event.execution? = none ∧ event.change? = none ∧ event.closes = false

/-- Such events can be left out of the log without changing what it tells. -/
theorem leave_out {events : List Event} (asides : ∀ event ∈ events, event.Aside) :
    events.filterMap execution? = [] ∧ events.filterMap change? = [] ∧
      events.filter closes = [] := by
  refine ⟨List.filterMap_eq_nil_iff.mpr fun event mem => (asides event mem).1,
    List.filterMap_eq_nil_iff.mpr fun event mem => (asides event mem).2.1,
    List.filter_eq_nil_iff.mpr fun event mem => ?_⟩
  rw [(asides event mem).2.2]
  exact Bool.false_ne_true

end Event

/-- The event that tells of an ending, where the machine stands and after how many steps. -/
def Ending.event (pc : Word) (steps : Nat) : Ending → Event
  | halted => .halted steps
  | failed fault => .failed fault pc steps

/-- A profile is reported when the machine has ended. -/
theorem Profile.report_aside (profile : Profile) : ∀ event ∈ profile.report, event.Aside := by
  intro event mem
  rw [Profile.report, List.mem_cons, List.mem_map] at mem
  obtain rfl | ⟨entry, -, rfl⟩ := mem <;> exact ⟨rfl, rfl, rfl⟩

/-- What is mapped at the end of a log, according to the log alone. -/
def retold (log : List Event) : Option Store.Lengths :=
  (log.filterMap Event.change?).foldlM Store.Event.retell fun _ => none

theorem retold_append {log : List Event} {lengths : Store.Lengths}
    (known : retold log = some lengths) (events : List Event) :
    retold (log ++ events) =
      (events.filterMap Event.change?).foldlM Store.Event.retell lengths := by
  rw [retold, List.filterMap_append, List.foldlM_append, ← retold, known]
  rfl

namespace Machine

variable {machine after : Machine} {instruction : Instruction}

/-! ## One step -/

/-- Changes that agree with what is mapped, and lead to certain lengths. -/
abbrev Retells (store : Store) (changes : List Store.Event) (lengths : Store.Lengths) : Prop :=
  changes.foldlM Store.Event.retell store.lengths = some lengths

/-- An instruction logs what it changes of the mapping, and nothing if it fails. -/
theorem Effect.log {result : Except Fault Next} (effect : machine.Effect instruction result after)
    (wf : machine.store.WellFormed) :
    ∃ changes lengths, after.log.toList = machine.log.toList ++ changes.map Event.store ∧
      Retells machine.store changes lengths ∧
      ∀ way, result = .ok way → lengths = after.store.lengths := by
  have silent :
      machine.log.toList = machine.log.toList ++ ([] : List Store.Event).map Event.store :=
    (List.append_nil _).symm
  cases effect with
  | @mapped out len handle store allocated =>
      refine ⟨[.mapped handle (machine.word len).toNat], _, Array.toList_push, ?_, fun _ _ => rfl⟩
      rw [Retells, List.foldlM_cons, Store.retell_mapped wf allocated]
      rfl
  | @unmapped seg store freed =>
      refine ⟨[.unmapped (machine.handle seg)], _, Array.toList_push, ?_, fun _ _ => rfl⟩
      rw [Retells, List.foldlM_cons, Store.retell_unmapped freed]
      rfl
  | @installed seg target store other installed =>
      refine ⟨[.installed (machine.handle seg)
        ((store.find? (machine.handle seg)).elim 0 Array.size)], _, Array.toList_push, ?_,
        fun _ _ => rfl⟩
      rw [Retells, List.foldlM_cons, Store.retell_installed other installed]
      rfl
  | wrote written => exact ⟨[], _, silent, rfl, fun _ _ => (Store.lengths_write written).symm⟩
  | computed | halted | jumped | delivered | received =>
      exact ⟨[], _, silent, rfl, fun _ _ => rfl⟩
  | refused | undelivered | unreceived => exact ⟨[], _, silent, rfl, nofun⟩

/-- What the events of a number of steps tell: the instructions that were executed, and what is
mapped after them if the machine then runs. -/
structure Told (machine : Machine) (count : Nat) (events : List Event) : Prop where
  log : (machine.stepped count).log.toList = machine.log.toList ++ events
  executions : events.filterMap Event.execution? = machine.executed count
  unclosed : events.filter Event.closes = []
  changes : ∃ lengths, Retells machine.store (events.filterMap Event.change?) lengths ∧
    ((machine.stepped count).status = .running → lengths = (machine.stepped count).store.lengths)

theorem told_idle (idle : machine.executing? = none) : machine.Told 1 [] where
  log := by
    rw [stepped_one, List.append_nil]
    rcases step_of_idle idle with ⟨-, same⟩ | failed
    · rw [same]
    · rw [failed, stop]
  executions := by
    rw [executed_one, execution?, idle]
    rfl
  unclosed := rfl
  changes := ⟨_, rfl, fun running => absurd running (stopped_of_idle idle)⟩

/-- A step logs what its instruction logs, and if the machine goes on it leaves the store that the
instruction leaves. -/
theorem step_after {result : Except Fault Next} (running : machine.status = .running)
    (upcoming : machine.upcoming = .ok instruction)
    (executed : (machine.enter instruction).execute instruction = (result, after)) :
    machine.step.2.log = after.log ∧
      (machine.step.2.status = .running →
        machine.step.2.store = after.store ∧ ∃ way, result = .ok way) := by
  cases result with
  | error fault =>
      rw [step_of_failed running upcoming executed]
      exact ⟨rfl, nofun⟩
  | ok way =>
      rw [step_of_executed running upcoming executed]
      cases way with
      | advance | jump target => exact ⟨rfl, fun _ => ⟨rfl, _, rfl⟩⟩
      | halt => exact ⟨rfl, nofun⟩

/-- The step logs the instruction and then the changes it makes. -/
theorem exists_told_one (wf : machine.status = .running → machine.store.WellFormed) :
    ∃ events, machine.Told 1 events := by
  cases executing : machine.executing? with
  | none => exact ⟨[], told_idle executing⟩
  | some instruction =>
      obtain ⟨running, upcoming⟩ := executing?_eq_some_iff.mp executing
      cases executed : (machine.enter instruction).execute instruction with
      | mk result after =>
          obtain ⟨changes, lengths, log, retells, kept⟩ :=
            (effect_of_execute executed).log (wf running)
          obtain ⟨same_log, goes_on⟩ := step_after running upcoming executed
          have entered : (machine.enter instruction).log.toList =
              machine.log.toList ++ [.execute machine.pc instruction] := Array.toList_push
          refine ⟨.execute machine.pc instruction :: changes.map Event.store, ?_, ?_, ?_, ?_⟩
          · rw [stepped_one, same_log, log, entered, List.append_assoc, List.singleton_append]
          · have first : (Event.execute machine.pc instruction).execution? =
                some (machine.pc, instruction) := rfl
            rw [List.filterMap_cons_some first, Event.filterMap_execution?_stores, executed_one,
              execution?, executing]
            rfl
          · rw [List.filter_cons_of_neg Bool.false_ne_true, Event.filter_closes_stores]
          · refine ⟨lengths, ?_, ?_⟩
            · rw [List.filterMap_cons_none rfl, Event.filterMap_change?_stores]
              exact retells
            · rw [stepped_one]
              intro still
              obtain ⟨same_store, way, ok⟩ := goes_on still
              rw [same_store]
              exact kept way ok

/-! ## Many steps -/

/-- What later steps tell goes on from what earlier ones told. -/
theorem Told.trans {count more : Nat} {events since : List Event}
    (told : machine.Told count events) (later : (machine.stepped count).Told more since) :
    machine.Told (count + more) (events ++ since) where
  log := by
    rw [stepped_add, later.log, told.log, List.append_assoc]
  executions := by
    rw [List.filterMap_append, told.executions, later.executions, executed_add]
  unclosed := by
    rw [List.filter_append, told.unclosed, later.unclosed, List.append_nil]
  changes := by
    obtain ⟨lengths, retells, now⟩ := told.changes
    -- The store of a machine that has stopped is empty, which no event tells, but no event follows.
    by_cases running : (machine.stepped count).status = .running
    · obtain ⟨lengths_later, retells_later, then_now⟩ := later.changes
      refine ⟨lengths_later, ?_, stepped_add .. ▸ then_now⟩
      rw [Retells, List.filterMap_append, List.foldlM_append, retells, now running]
      exact retells_later
    · have same := later.log
      rw [stepped_of_stopped running, List.self_eq_append_right] at same
      rw [same, List.append_nil, stepped_add, stepped_of_stopped running]
      exact ⟨lengths, retells, now⟩

theorem exists_told (runnable : machine.store.Runnable) (count : Nat) :
    ∃ events, machine.Told count events := by
  induction count with
  | zero => exact ⟨[], (List.append_nil _).symm, rfl, rfl, _, rfl, fun _ => rfl⟩
  | succ count ih =>
      obtain ⟨events, told⟩ := ih
      have wf : (machine.stepped count).status = .running →
          (machine.stepped count).store.WellFormed :=
        fun running => ((runsFor_of_running running).runnable runnable).wellFormed
      obtain ⟨more, later⟩ := exists_told_one wf
      exact ⟨events ++ more, told.trans later⟩

/-! ## A whole run -/

/-- The event that closes the log tells of the ending that is answered. -/
theorem finish_log (machine : Machine) (stopped : Except Fault Unit) :
    (machine.finish stopped).2.log =
      machine.log.push ((machine.finish stopped).1.event machine.pc machine.profile.steps) ++
        if machine.config.profile then machine.profile.report else [] := by
  simp only [finish, takeChannels]
  cases stopped with
  | error fault => rfl
  | ok done => cases machine.channels.flush.1 <;> rfl

theorem finish_tells (machine : Machine) (stopped : Except Fault Unit) :
    ∃ asides, (∀ event ∈ asides, event.Aside) ∧
      (machine.finish stopped).2.log.toList =
        machine.log.toList ++
          (machine.finish stopped).1.event machine.pc machine.profile.steps :: asides := by
  refine ⟨if machine.config.profile then machine.profile.report else [], ?_, ?_⟩
  · split
    · exact machine.profile.report_aside
    · nofun
  · rw [finish_log, Array.toList_appendList, Array.toList_push, List.append_assoc,
      List.singleton_append]

/-! ## From the start to the end -/

/-- A machine that has only been loaded. Its log tells what is mapped and nothing else. -/
structure Unstarted (machine : Machine) : Prop where
  running : machine.status = .running
  unused : machine.profile.steps = 0
  executions : machine.log.toList.filterMap Event.execution? = []
  unclosed : machine.log.toList.filter Event.closes = []
  mapped : retold machine.log.toList = some machine.store.lengths

/-- The events of mapping a program tell what is mapped when it has been loaded. -/
theorem retell_program (program : Segment) :
    Store.Event.retell (∅ : Store).lengths (.mapped .program program.size) =
      some (Store.ofProgram program).lengths := by
  rw [Store.lengths_empty, Store.Event.retell, if_pos rfl, Option.some_inj]
  funext handle
  rw [Store.lengths, Store.find?_ofProgram, Function.update_apply]
  split <;> rfl

theorem unstarted_ofImage {image : List Delivery} {channels : Channels} {config : Config}
    {events : List Event} (loaded : ofImage image channels config = (.ok machine, events)) :
    machine.Unstarted := by
  obtain ⟨store, read, rfl⟩ := ofImage_eq_ok loaded
  obtain ⟨noted, dropped, ⟨fault, failed⟩ | ⟨program, same⟩⟩ :=
    Image.load_ways image (config.hasMemory 0)
  · rw [failed] at read
    cases read
  · rw [same] at read
    cases read
    obtain ⟨no_execution, no_change, no_closing⟩ :=
      Event.leave_out fun event mem => (dropped event mem).elim fun _ same => same ▸ ⟨rfl, rfl, rfl⟩
    constructor
    · rfl
    · exact Profile.steps_empty
    · rw [List.toList_toArray, List.filterMap_append, no_execution]
      rfl
    · rw [List.toList_toArray, List.filter_append, no_closing]
      rfl
    · have nothing : retold noted = some (∅ : Store).lengths := by
        rw [retold, no_change, Store.lengths_empty]
        rfl
      have told : [Event.store (.mapped .program program.size), .loaded program.size].filterMap
          Event.change? = [.mapped .program program.size] := rfl
      rw [List.toList_toArray, retold_append nothing, told, List.foldlM_cons, retell_program]
      rfl

/-- As long as the machine runs, the log tells what is mapped. -/
theorem Unstarted.retold_stepped (start : machine.Unstarted) (runnable : machine.store.Runnable)
    {count : Nat} (runs : machine.RunsFor count) :
    retold (machine.stepped count).log.toList = some (machine.stepped count).store.lengths := by
  obtain ⟨events, told⟩ := exists_told runnable count
  obtain ⟨lengths, retells, now⟩ := told.changes
  rw [told.log, retold_append start.mapped, retells, now (runs.steps.1.trans start.running)]

/-- Later steps add to the log. -/
theorem RunsFor.log_prefix {count later : Nat} (runs : machine.RunsFor count)
    (runnable : machine.store.Runnable) (le : count ≤ later) :
    (machine.stepped count).log.toList <+: (machine.stepped later).log.toList := by
  obtain ⟨more, rfl⟩ := Nat.exists_eq_add_of_le le
  obtain ⟨events, told⟩ := exists_told (runs.runnable runnable) more
  rw [stepped_add, told.log]
  exact List.prefix_append _ events

/-- What a run adds to the log is what its steps tell, then the event that tells of the ending, and
then at most a profile. -/
theorem Unstarted.run_log (start : machine.Unstarted) (runnable : machine.store.Runnable)
    {budget : Nat} {ending : Ending} {last : Machine}
    (ended : machine.run budget = some (ending, last)) :
    ∃ count, machine.RunsFor count ∧ machine.answer count ≠ .ok .running ∧
      (machine.stepped (count + 1)).log.toList <+: last.log.toList ∧
      last.log.toList.filterMap Event.execution? = machine.executed (count + 1) ∧
      last.log.toList.filter Event.closes = [ending.event last.pc last.profile.steps] ∧
      (machine.executed (count + 1)).length = last.profile.steps ∧
      (retold last.log.toList).isSome := by
  obtain ⟨count, runs, stops, outcome⟩ := run_cases ended
  rw [← stepped_succ] at outcome
  obtain ⟨events, told⟩ := exists_told runnable (count + 1)
  obtain ⟨lengths, retells, -⟩ := told.changes
  obtain ⟨asides, silent, finished⟩ := (machine.stepped (count + 1)).finish_tells
    ((machine.answer count).map fun _ => ())
  obtain ⟨no_execution, no_change, no_closing⟩ := Event.leave_out silent
  have log : last.log.toList = machine.log.toList ++
      (events ++ ending.event last.pc last.profile.steps :: asides) := by
    rw [← List.append_assoc, ← told.log]
    cases outcome
    exact finished
  obtain ⟨unexecuted, unchanged, closes⟩ :
      (ending.event last.pc last.profile.steps).execution? = none ∧
        (ending.event last.pc last.profile.steps).change? = none ∧
        (ending.event last.pc last.profile.steps).closes = true := by
    cases ending <;> exact ⟨rfl, rfl, rfl⟩
  refine ⟨count, runs, stops, ?_, ?_, ?_, ?_, ?_⟩
  · rw [told.log, log, ← List.append_assoc]
    exact List.prefix_append _ _
  · rw [log, List.filterMap_append, start.executions, List.nil_append, List.filterMap_append,
      told.executions, List.filterMap_cons_none unexecuted, no_execution, List.append_nil]
  · rw [log, List.filter_append, start.unclosed, List.nil_append, List.filter_append,
      told.unclosed, List.filter_cons_of_pos closes, no_closing, List.nil_append]
  · have counted := machine.steps_stepped (count + 1)
    rw [start.unused, Nat.zero_add] at counted
    rw [← counted, (Prod.mk.inj outcome).2]
  · rw [log, retold_append start.mapped, List.filterMap_append, List.filterMap_cons_none unchanged,
      no_change, List.append_nil, retells, Option.isSome_some]

end Machine

open Machine in
/-- If the program cannot be loaded, the log tells so at its end and tells of no machine. Otherwise
one event tells how the machine ended, where it stood then and how many instructions were executed,
and the log tells just these, each with its place. What the log tells of segments has no
contradiction, and as long as the machine runs it tells which are mapped and how long they are. -/
theorem log_tells_run {image : List Delivery} {channels : Channels} {config : Config}
    {budget : Nat} {outcome : Outcome} (ended : run image channels config budget = some outcome) :
    (∀ fault events, ofImage image channels config = (.error fault, events) →
      outcome.ending = .failed fault ∧
        ∃ noted, outcome.log.toList = noted ++ [.loadFailed fault] ∧
          ∀ event ∈ noted, ∃ bytes, event = .dropped bytes) ∧
    (∀ machine events, ofImage image channels config = (.ok machine, events) →
      ∃ ending last, machine.run budget = some (ending, last) ∧
        outcome = ⟨ending, last.channels, last.log⟩ ∧
        outcome.log.toList.filter Event.closes = [ending.event last.pc last.profile.steps] ∧
        (outcome.log.toList.filterMap Event.execution?).length = last.profile.steps ∧
        (∀ i < last.profile.steps, ∃ instruction,
          (machine.stepped i).executing? = some instruction ∧
            (outcome.log.toList.filterMap Event.execution?)[i]? =
              some ((machine.stepped i).pc, instruction)) ∧
        (retold outcome.log.toList).isSome ∧
        ∀ count, machine.RunsFor count →
          (machine.stepped count).log.toList <+: outcome.log.toList ∧
            retold (machine.stepped count).log.toList =
              some (machine.stepped count).store.lengths) := by
  constructor
  · intro fault events failed
    rw [run, failed] at ended
    cases ended
    refine ⟨rfl, events, List.toList_toArray .., ?_⟩
    obtain ⟨noted, dropped, ⟨_, same⟩ | ⟨_, same⟩⟩ := Image.load_ways image (config.hasMemory 0)
    · rw [ofImage, same] at failed
      cases failed
      exact dropped
    · rw [ofImage, same] at failed
      cases failed
  · intro machine events loaded
    rw [run, loaded] at ended
    obtain ⟨⟨ending, last⟩, finished, rfl⟩ := Option.map_eq_some_iff.mp ended
    have runnable := runnable_ofImage loaded
    have start := unstarted_ofImage loaded
    obtain ⟨count, runs, stops, before_end, executions, closing, counted, consistent⟩ :=
      start.run_log runnable finished
    refine ⟨ending, last, finished, rfl, closing, ?_, ?_, consistent, ?_⟩
    · rw [executions, counted]
    · intro i before
      rw [executions]
      exact getElem?_executed_of_lt runs (counted.symm ▸ before)
    · intro earlier runs_earlier
      have reached : earlier ≤ count + 1 := by
        by_contra later
        exact stops (runs_earlier count (by omega))
      exact ⟨(runs_earlier.log_prefix runnable reached).trans before_end,
        start.retold_stepped runnable runs_earlier⟩

open Machine in
/-- A program that maps two segments, unmaps the first of them and goes on in the second, which it
leaves at its end. -/
theorem log_tells_run_installed :
    let image : List Delivery := [.chunk
      [0xD2, 0, 0, 2, 0x80, 0, 0, 0x11, 0x80, 0, 0, 0x19, 0x90, 0, 0, 2, 0xC0, 0, 0, 0x18, 7]]
    ∃ outcome machine, run image { input := [] } {} 8 = some outcome ∧
      (ofImage image { input := [] } {}).1 = .ok machine ∧
      outcome.log.toList.filter Event.closes = [.failed (.pcOutOfBounds 2 2) 2 7] ∧
      (outcome.log.toList.filterMap Event.execution?).length = 7 ∧
      (retold outcome.log.toList).isSome ∧
      machine.RunsFor 7 ∧
      retold (machine.stepped 7).log.toList = some (machine.stepped 7).store.lengths := by
  intro image
  let noted : List Event := [.dropped 1, .store (.mapped .program 5), .loaded 5]
  let machine : Machine :=
    { store := ⟨#[some #[0xD2000002, 0x80000011, 0x80000019, 0x90000002, 0xC0000018]], []⟩
      channels := { input := [] }
      log := noted.toArray }
  have loaded : ofImage image { input := [] } {} = (.ok machine, noted) := by decide +kernel
  obtain ⟨outcome, ended, seen⟩ : ∃ outcome, run image { input := [] } {} 8 = some outcome ∧
      (outcome.log.toList.filter Event.closes,
        (outcome.log.toList.filterMap Event.execution?).length) =
        ([.failed (.pcOutOfBounds 2 2) 2 7], 7) := by
    rw [← Option.map_eq_some_iff]
    decide +kernel
  obtain ⟨closing, number⟩ := Prod.mk.inj seen
  have runs : machine.RunsFor 7 := runsFor_of_running (by decide +kernel)
  obtain ⟨_, _, -, -, -, -, -, consistent, mapped⟩ :=
    (log_tells_run ended).2 machine noted loaded
  exact ⟨outcome, machine, ended, by rw [loaded], closing, number, consistent, runs,
    (mapped 7 runs).2⟩

end UniversalMachine
