import UniversalMachine.Proofs.AlikeChannels
import UniversalMachine.Proofs.ImageLoading

/-!
# How bytes arrive

The same bytes can be delivered in many ways: split into reads here or there, with interruptions in
between, and an output can interrupt the writes as well. A machine does not notice. However the
bytes of its program and of its input arrive, it is the same machine after every step, and what
passes between it and its devices is the same but for the reads that were interrupted.
-/

namespace UniversalMachine

/-! ## The input -/

namespace Delivery

/-- A script delivers bytes in reads that are not empty, with interruptions anywhere, and then the
input has ended, however often it says so. -/
inductive Delivers : List Delivery → List UInt8 → Prop where
  | ended : Delivers [] []
  | atEnd {script : List Delivery} (later : Delivers script []) :
      Delivers (.endOfInput :: script) []
  | interrupted {script : List Delivery} {bytes : List UInt8} (later : Delivers script bytes) :
      Delivers (.interrupted :: script) bytes
  | chunk {script : List Delivery} {bytes : List UInt8} (first : UInt8) (rest : List UInt8)
      (later : Delivers script bytes) :
      Delivers (.chunk (first :: rest) :: script) (first :: rest ++ bytes)

variable {script : List Delivery} {bytes : List UInt8}

/-- A request takes the next byte, and what is left delivers the others. -/
theorem Delivers.takeByte (delivers : Delivers script bytes) :
    (Delivery.takeByte script).1 = .ok bytes.head? ∧
      Delivers (Delivery.takeByte script).2 bytes.tail := by
  induction delivers with
  | ended => exact ⟨rfl, .ended⟩
  | atEnd later => exact ⟨rfl, later⟩
  | interrupted later ih => exact ih
  | chunk first rest later =>
      cases rest with
      | nil => exact ⟨rfl, later⟩
      | cons second rest => exact ⟨rfl, .chunk second rest later⟩

theorem Delivers.readAll (delivers : Delivers script bytes) :
    Delivery.readAll script = .ok bytes := by
  induction delivers with
  | ended | atEnd => rfl
  | interrupted later ih => exact ih
  | chunk first rest later ih =>
      rw [Delivery.readAll, ih]
      · rfl
      · exact nofun

theorem exists_requests (script : List Delivery) : ∃ retries, requests script = retries + 1 := by
  fun_cases requests script with
  | case1 rest => exact ⟨requests rest, rfl⟩
  | case2 => exact ⟨0, rfl⟩

/-- The input never interrupts. -/
def Uninterrupted (script : List Delivery) : Prop :=
  ∀ delivery ∈ script, delivery ≠ .interrupted

theorem Uninterrupted.takeByte (uninterrupted : Uninterrupted script) :
    requests script = 1 ∧ Uninterrupted (Delivery.takeByte script).2 := by
  cases script with
  | nil => exact ⟨rfl, uninterrupted⟩
  | cons delivery rest =>
      obtain ⟨first, later⟩ := List.forall_mem_cons.mp uninterrupted
      cases delivery with
      | interrupted => exact absurd rfl first
      | endOfInput | failure text => exact ⟨rfl, later⟩
      | chunk bytes =>
          refine ⟨rfl, ?_⟩
          match bytes with
          | [] | [_] => exact later
          | _ :: _ :: _ => exact List.forall_mem_cons.mpr ⟨nofun, later⟩

end Delivery

/-! ## The output -/

/-- An output takes every byte, if only after some interruptions. -/
def WriteReply.Harmless (script : List WriteReply) : Prop :=
  ∀ reply ∈ script, reply = .accepted ∨ reply = .interrupted

theorem WriteReply.Harmless.offer {script : List WriteReply} (harmless : Harmless script) :
    (WriteReply.offer script).1 = .ok () ∧ Harmless (WriteReply.offer script).2 := by
  induction script with
  | nil => exact ⟨rfl, harmless⟩
  | cons reply rest ih =>
      obtain ⟨first, later⟩ := List.forall_mem_cons.mp harmless
      rcases first with rfl | rfl
      · exact ⟨rfl, later⟩
      · exact ih later

/-! ## The transcript -/

namespace Transfer

/-- The transcript without the reads that were interrupted. Every byte is asked for after a flush,
so a read that another one follows at once was interrupted. -/
def completed : List Transfer → List Transfer
  | [] => []
  | transfer :: rest =>
    if transfer = .read ∧ rest.head? = some .read then completed rest
    else transfer :: completed rest

theorem completed_append {before since : List Transfer} (apart : since.head? ≠ some .read) :
    completed (before ++ since) = completed before ++ completed since := by
  induction before with
  | nil => rfl
  | cons transfer rest ih =>
      have next : (rest ++ since).head? = some .read ↔ rest.head? = some .read := by
        cases rest with
        | nil => simpa using apart
        | cons next rest => rfl
      simp only [List.cons_append, completed, next, ih]
      split <;> rfl

theorem completed_concat {transfer : Transfer} (other : transfer ≠ .read)
    (before : List Transfer) :
    completed (before ++ [transfer]) = completed before ++ [transfer] := by
  rw [completed_append (by simpa using other), completed, if_neg fun interrupted =>
    other interrupted.1, completed]

theorem completed_reads (retries : Nat) :
    completed (List.replicate (retries + 1) .read) = [.read] := by
  induction retries with
  | zero => rfl
  | succ retries ih =>
      rw [List.replicate_succ, completed, if_pos ⟨rfl, rfl⟩, ih]

/-- Of all requests for one byte one is left. -/
theorem completed_receive (before : List Transfer) (retries : Nat) :
    completed (before ++ .flush :: List.replicate (retries + 1) .read) =
      completed before ++ [.flush, .read] := by
  rw [completed_append (by simp), completed, if_neg (by simp), completed_reads]

/-- The bytes that passed are all left. -/
theorem filterMap_completed (transfers : List Transfer) :
    (completed transfers).filterMap byte? = transfers.filterMap byte? := by
  induction transfers with
  | nil => rfl
  | cons transfer rest ih =>
      rw [completed]
      split
      · next interrupted => rw [ih, interrupted.1, List.filterMap_cons_none rfl]
      · rw [List.filterMap_cons, List.filterMap_cons, ih]

end Transfer

/-! ## The channels -/

/-- What there is to see of channels that take every byte, however the bytes of their input arrive:
the bytes still to come, the answers to flushes, and what has passed but for the reads that were
interrupted. -/
structure ByteView where
  bytes : List UInt8
  flushes : List FlushReply
  passed : List Transfer

namespace ByteView

/-- The channels look like this. -/
structure Of (view : ByteView) (channels : Channels) : Prop where
  input : Delivery.Delivers channels.input view.bytes
  writes : WriteReply.Harmless channels.writes
  flushes : channels.flushes = view.flushes
  passed : Transfer.completed channels.transcript.toList = view.passed

def deliver (view : ByteView) (byte : UInt8) : ByteView :=
  { view with passed := view.passed ++ [.byte byte] }

def flush (view : ByteView) : Except ChannelError Unit × ByteView :=
  let (answer, flushes) := FlushReply.request view.flushes
  (answer, { view with flushes, passed := view.passed ++ [.flush] })

def receive (view : ByteView) : Except ChannelError (Option UInt8) × ByteView :=
  match view.flush with
  | (.error error, view) => (.error error, view)
  | (.ok (), view) =>
    (.ok view.bytes.head?,
      { view with bytes := view.bytes.tail, passed := view.passed ++ [.read] })

variable {view : ByteView} {channels : Channels}

theorem Of.deliver (looks : view.Of channels) (byte : UInt8) :
    (channels.deliver byte).1 = .ok () ∧ (view.deliver byte).Of (channels.deliver byte).2 := by
  obtain ⟨taken, harmless⟩ := looks.writes.offer
  have offered : WriteReply.offer channels.writes =
      (.ok (), (WriteReply.offer channels.writes).2) := Prod.ext taken rfl
  rw [Channels.deliver, offered]
  refine ⟨rfl, looks.input, harmless, looks.flushes, ?_⟩
  rw [Array.toList_push, Transfer.completed_concat (by simp), looks.passed]
  rfl

theorem Of.flush (looks : view.Of channels) :
    channels.flush.1 = view.flush.1 ∧ view.flush.2.Of channels.flush.2 := by
  rw [Channels.flush, ByteView.flush, looks.flushes]
  refine ⟨rfl, looks.input, looks.writes, rfl, ?_⟩
  rw [Array.toList_push, Transfer.completed_concat (by simp), looks.passed]

theorem Of.receive (looks : view.Of channels) :
    channels.receive.1 = view.receive.1 ∧ view.receive.2.Of channels.receive.2 := by
  have flushed := looks.flush
  obtain ⟨taken, delivers⟩ := looks.input.takeByte
  obtain ⟨retries, reads⟩ := Delivery.exists_requests channels.input
  rw [Channels.flush, ByteView.flush, looks.flushes] at flushed
  rw [Channels.receive, ByteView.receive, Channels.flush, ByteView.flush, looks.flushes]
  generalize FlushReply.request view.flushes = reply at flushed ⊢
  obtain ⟨answer, flushes⟩ := reply
  cases answer with
  | error error => exact ⟨rfl, flushed.2⟩
  | ok done =>
      refine ⟨taken, delivers, looks.writes, rfl, ?_⟩
      simp only [Array.toList_append, Array.toList_push, Array.toList_replicate, reads,
        List.append_assoc, Transfer.completed_receive, looks.passed, List.cons_append,
        List.nil_append]

/-- Bytes that passed can be seen. -/
theorem Of.output (looks : view.Of channels) :
    channels.output = view.passed.filterMap Transfer.byte? := by
  rw [← looks.passed, Transfer.filterMap_completed, Channels.output]

end ByteView

namespace Channels

/-- Channels that cannot be told apart by what there is to see of them. -/
def LookAlike (left right : Channels) : Prop :=
  ∃ view : ByteView, view.Of left ∧ view.Of right

theorem lookAlike_of_answers {α : Type} {answer : α} {view : ByteView} {left right : α × Channels}
    (looks : left.1 = answer ∧ view.Of left.2) (looks_too : right.1 = answer ∧ view.Of right.2) :
    right.1 = left.1 ∧ LookAlike left.2 right.2 :=
  ⟨looks_too.1.trans looks.1.symm, view, looks.2, looks_too.2⟩

/-- Channels that look alike answer alike. -/
theorem bisimulation_lookAlike : Bisimulation LookAlike where
  deliver := by
    rintro left right ⟨view, looks, looks_too⟩ byte
    exact lookAlike_of_answers (looks.deliver byte) (looks_too.deliver byte)
  receive := by
    rintro left right ⟨view, looks, looks_too⟩
    exact lookAlike_of_answers looks.receive looks_too.receive
  flush := by
    rintro left right ⟨view, looks, looks_too⟩
    exact lookAlike_of_answers looks.flush looks_too.flush

/-- Where no read is interrupted, every read in the transcript is one that was completed. -/
theorem invariant_uninterrupted :
    Invariant fun channels => Delivery.Uninterrupted channels.input ∧
      Transfer.completed channels.transcript.toList = channels.transcript.toList where
  deliver := by
    rintro channels ⟨uninterrupted, completed⟩ byte
    obtain ⟨writes, accepted | ⟨error, failed⟩⟩ := channels.deliver_ways byte
    · rw [accepted]
      refine ⟨uninterrupted, ?_⟩
      rw [Array.toList_push, Transfer.completed_concat (by simp), completed]
    · rw [failed]
      exact ⟨uninterrupted, completed⟩
  receive := by
    rintro channels ⟨uninterrupted, completed⟩
    obtain ⟨flushes, ⟨error, failed⟩ | answered⟩ := channels.receive_ways
    · rw [failed]
      refine ⟨uninterrupted, ?_⟩
      rw [Array.toList_push, Transfer.completed_concat (by simp), completed]
    · obtain ⟨once, later⟩ := uninterrupted.takeByte
      rw [answered]
      refine ⟨later, ?_⟩
      rw [once, Array.toList_append, Array.toList_push, List.append_assoc,
        Transfer.completed_append (by simp), completed]
      rfl
  flush := by
    rintro channels ⟨uninterrupted, completed⟩
    refine ⟨uninterrupted, ?_⟩
    rw [Channels.flush, Array.toList_push, Transfer.completed_concat (by simp), completed]

end Channels

/-! ## Programs and their input -/

/-- One of the ways in which the bytes of a program and of its input can arrive, at a machine whose
output takes every byte. -/
structure Arrival (program bytes : List UInt8) where
  image : List Delivery
  input : List Delivery
  writes : List WriteReply
  image_delivers : Delivery.Delivers image program
  input_delivers : Delivery.Delivers input bytes
  harmless : WriteReply.Harmless writes

namespace Arrival

variable {program bytes : List UInt8}

/-- The channels of a machine before anything has passed. -/
def channels (arrival : Arrival program bytes) (flushes : List FlushReply) : Channels :=
  { input := arrival.input, writes := arrival.writes, flushes }

theorem look_alike (first second : Arrival program bytes) (flushes : List FlushReply) :
    (first.channels flushes).LookAlike (second.channels flushes) :=
  ⟨⟨bytes, flushes, []⟩, ⟨first.input_delivers, first.harmless, rfl, rfl⟩,
    ⟨second.input_delivers, second.harmless, rfl, rfl⟩⟩

/-- The image is the same program. -/
theorem load_image (first second : Arrival program bytes) (memory : Bool) :
    Image.load second.image memory = Image.load first.image memory := by
  rw [Image.load, Image.load, first.image_delivers.readAll, second.image_delivers.readAll]

/-- Loading makes machines that look alike, or fails in the same way. -/
theorem ofImage_alike (first second : Arrival program bytes) (flushes : List FlushReply)
    (config : Config) :
    Machine.ofImage second.image (second.channels flushes) config =
      ((Machine.ofImage first.image (first.channels flushes) config).1.map fun machine =>
          machine.withChannels (second.channels flushes),
        (Machine.ofImage first.image (first.channels flushes) config).2) := by
  rw [Machine.ofImage, Machine.ofImage, first.load_image second]
  cases Image.load first.image (config.hasMemory 0) with
  | mk result events => cases result <;> rfl

section Loaded

variable {first : Arrival program bytes} {flushes : List FlushReply} {config : Config}
  {machine : Machine} {events : List Event}
  (loaded : Machine.ofImage first.image (first.channels flushes) config = (.ok machine, events))
include loaded

theorem upToChannels_of_loaded (second : Arrival program bytes) :
    Machine.UpToChannels Channels.LookAlike machine
      (machine.withChannels (second.channels flushes)) := by
  obtain ⟨store, -, rfl⟩ := Machine.ofImage_eq_ok loaded
  exact ⟨rfl, first.look_alike second flushes⟩

/-- The two machines are the same after each step but for what is still to come. -/
theorem stepped_alike (second : Arrival program bytes) (count : Nat) :
    let other := machine.withChannels (second.channels flushes)
    other.answer count = machine.answer count ∧
      other.stepped count = (machine.stepped count).withChannels (other.stepped count).channels ∧
      (other.stepped count).channels.output = (machine.stepped count).channels.output := by
  intro other
  obtain ⟨answer, same, view, looks, looks_too⟩ := Machine.stepped_upToChannels
    Channels.bisimulation_lookAlike (upToChannels_of_loaded loaded second) count
  exact ⟨answer, same, looks_too.output.trans looks.output.symm⟩

end Loaded

/-- The two runs end together, and what they leave behind is the same but for interrupted reads. -/
theorem run_alike (first second : Arrival program bytes) (flushes : List FlushReply)
    (config : Config) (budget : Nat) :
    Option.Rel
      (fun outcome other : Outcome => other.ending = outcome.ending ∧ other.log = outcome.log ∧
        Transfer.completed other.channels.transcript.toList =
          Transfer.completed outcome.channels.transcript.toList)
      (run first.image (first.channels flushes) config budget)
      (run second.image (second.channels flushes) config budget) := by
  have loaded_too := first.ofImage_alike second flushes config
  cases loaded : Machine.ofImage first.image (first.channels flushes) config with
  | mk result events =>
      rw [loaded] at loaded_too
      rw [run, run, loaded, loaded_too]
      cases result with
      | error fault => exact .some ⟨rfl, rfl, rfl⟩
      | ok machine =>
          have runs := Machine.run_upToChannels Channels.bisimulation_lookAlike
            (upToChannels_of_loaded loaded second) budget
          simp only [Except.map]
          generalize machine.run budget = left,
            (machine.withChannels _).run budget = right at runs ⊢
          cases runs with
          | none => exact .none
          | some both =>
              obtain ⟨ending, same, view, looks, looks_too⟩ := both
              have log := congrArg Machine.log same
              have passed := looks_too.passed.trans looks.passed.symm
              exact .some ⟨ending, log, passed⟩

/-- Where no read of the input is interrupted, nothing of the transcript is an interrupted read. -/
theorem completed_of_uninterrupted (arrival : Arrival program bytes) (flushes : List FlushReply)
    (config : Config) (uninterrupted : Delivery.Uninterrupted arrival.input) {budget : Nat}
    {outcome : Outcome}
    (ended : run arrival.image (arrival.channels flushes) config budget = some outcome) :
    Transfer.completed outcome.channels.transcript.toList = outcome.channels.transcript.toList := by
  unfold run at ended
  split at ended
  · cases ended
    rfl
  · next machine events loaded =>
      obtain ⟨store, -, rfl⟩ := Machine.ofImage_eq_ok loaded
      obtain ⟨⟨ending, last⟩, finished, rfl⟩ := Option.map_eq_some_iff.mp ended
      exact (Machine.run_invariant Channels.invariant_uninterrupted ⟨uninterrupted, rfl⟩ finished).2

/-- How bytes arrive does not matter. Two machines whose program and input are the same bytes, that
arrive in any two ways, answer each step alike and are the same after it in all but their channels,
on which the same output has passed. One of them ends its run if the other one does, with the same
ending and the same log, and the same has then passed between each and its devices but for the reads
that were interrupted. In a run without interruptions every read counts. -/
theorem arrival_unnoticed (first second : Arrival program bytes) (flushes : List FlushReply)
    (config : Config) :
    (∀ machine events,
      Machine.ofImage first.image (first.channels flushes) config = (.ok machine, events) →
      ∃ other,
        Machine.ofImage second.image (second.channels flushes) config = (.ok other, events) ∧
        ∀ count,
          other.answer count = machine.answer count ∧
          other.stepped count =
            (machine.stepped count).withChannels (other.stepped count).channels ∧
          (other.stepped count).channels.output = (machine.stepped count).channels.output) ∧
    (∀ budget,
      Option.Rel
        (fun outcome other : Outcome => other.ending = outcome.ending ∧ other.log = outcome.log ∧
          Transfer.completed other.channels.transcript.toList =
            Transfer.completed outcome.channels.transcript.toList)
        (run first.image (first.channels flushes) config budget)
        (run second.image (second.channels flushes) config budget)) ∧
    (Delivery.Uninterrupted first.input → ∀ budget outcome,
      run first.image (first.channels flushes) config budget = some outcome →
      Transfer.completed outcome.channels.transcript.toList =
        outcome.channels.transcript.toList) := by
  refine ⟨?_, first.run_alike second flushes config, ?_⟩
  · intro machine events loaded
    refine ⟨machine.withChannels (second.channels flushes), ?_, stepped_alike loaded second⟩
    rw [first.ofImage_alike second, loaded]
    rfl
  · intro uninterrupted budget outcome ended
    exact first.completed_of_uninterrupted flushes config uninterrupted ended

/-- A program that copies two bytes. Whether they come in one read or with three interruptions, the
same passes but for three reads. -/
theorem arrival_unnoticed_interrupted :
    let program : List UInt8 :=
      [0xB0, 0, 0, 0, 0xA0, 0, 0, 0, 0xB0, 0, 0, 1, 0xA0, 0, 0, 1, 0x70, 0, 0, 0]
    let first : Arrival program [65, 66] :=
      { image := [.chunk program]
        input := [.chunk [65, 66]]
        writes := []
        image_delivers := .chunk _ _ .ended
        input_delivers := .chunk _ _ .ended
        harmless := nofun }
    let second : Arrival program [65, 66] :=
      { image := [.chunk (program.take 3), .interrupted, .chunk (program.drop 3)]
        input := [.interrupted, .chunk [65], .interrupted, .interrupted, .chunk [66]]
        writes := [.interrupted, .accepted]
        image_delivers := .chunk _ _ (.interrupted (.chunk _ _ .ended))
        input_delivers :=
          .interrupted (.chunk _ _ (.interrupted (.interrupted (.chunk _ _ .ended))))
        harmless := by simp [WriteReply.Harmless] }
    ∃ outcome other,
      run first.image (first.channels []) {} 5 = some outcome ∧
      run second.image (second.channels []) {} 5 = some other ∧
      other.ending = outcome.ending ∧
      Transfer.completed other.channels.transcript.toList = outcome.channels.transcript.toList ∧
      other.channels.transcript.size = outcome.channels.transcript.size + 3 := by
  intro program first second
  obtain ⟨-, together, every⟩ := arrival_unnoticed first second [] {}
  have uninterrupted : Delivery.Uninterrupted first.input := by
    simp [Delivery.Uninterrupted, first]
  obtain ⟨outcome, ended, size⟩ : ∃ outcome,
      run first.image (first.channels []) {} 5 = some outcome ∧
        outcome.channels.transcript.size = 7 := by
    rw [← Option.map_eq_some_iff]
    decide +kernel
  obtain ⟨other, ended_too, size_too⟩ : ∃ other,
      run second.image (second.channels []) {} 5 = some other ∧
        other.channels.transcript.size = 10 := by
    rw [← Option.map_eq_some_iff]
    decide +kernel
  have alike := together 5
  rw [ended, ended_too] at alike
  cases alike with
  | some same =>
      obtain ⟨ending, -, passed⟩ := same
      refine ⟨outcome, other, ended, ended_too, ending, ?_, ?_⟩
      · rw [passed, every uninterrupted 5 outcome ended]
      · rw [size, size_too]

end Arrival

end UniversalMachine
