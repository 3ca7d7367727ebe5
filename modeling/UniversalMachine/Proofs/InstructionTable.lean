import UniversalMachine.Proofs.FieldArithmetic
import UniversalMachine.Proofs.InputStream
import UniversalMachine.Proofs.Step
import UniversalMachine.Proofs.StoreHistory
import Mathlib.Logic.Function.Basic

/-!
# The instruction table

The table says what each operation does in natural numbers alone: words are numbers below
`2 ^ 32`, handles are positions, and the slots of an instruction word are quotients and
remainders. A step that succeeds does what the table says, for every operation and however
the operands share registers.
-/

namespace UniversalMachine

/-- A machine in natural numbers. -/
@[ext]
structure View where
  pc : Nat
  registers : Register → Nat
  /-- The words that a handle names. -/
  memory : Nat → Option (List Nat)
  /-- The handles that wait to be used again, the latest first. -/
  unmapped : List Nat
  /-- The number of handles in use so far. -/
  handles : Nat
  input : List Delivery.ByteAnswer
  output : List Nat
  status : Status

namespace View

/-- The register in the three bits of a word from bit `lsb` on. -/
def slot (word lsb : Nat) : Register :=
  ⟨word / 2 ^ lsb % 8, Nat.mod_lt _ (by decide)⟩

/-- Puts a number into a register. -/
def put (view : View) (target : Register) (value : Nat) : View :=
  { view with registers := Function.update view.registers target value }

/-- Makes a handle name other words, or nothing. -/
def name (view : View) (handle : Nat) (words : Option (List Nat)) : View :=
  { view with memory := Function.update view.memory handle words }

/-- Continues at the next instruction. -/
def advance (view : View) : View :=
  { view with pc := (view.pc + 1) % 2 ^ 32 }

/-- Continues at another instruction. -/
def goto (view : View) (target : Nat) : View :=
  { view with pc := target }

def load (view : View) (handle offset : Nat) : Option Nat :=
  (view.memory handle).bind fun words => words[offset]?

def store (view : View) (handle offset value : Nat) : Option View :=
  (view.memory handle).bind fun words =>
    if offset < words.length then some (view.name handle (some (words.set offset value)))
    else none

/-- A segment of zeros takes the handle that was unmapped last, or else a new one. -/
def allocate (view : View) (length : Nat) : Option (Nat × View) :=
  let zeros := some (List.replicate length 0)
  match view.unmapped with
  | handle :: rest => some (handle, { view.name handle zeros with unmapped := rest })
  | [] =>
    if view.handles < 2 ^ 32 then
      some (view.handles, { view.name view.handles zeros with handles := view.handles + 1 })
    else none

def free (view : View) (handle : Nat) : Option View :=
  if handle = 0 ∨ view.memory handle = none then none
  else some { view.name handle none with unmapped := handle :: view.unmapped }

def install (view : View) (handle : Nat) : Option View :=
  (view.memory handle).map fun words => view.name 0 (some words)

/-- Releases everything. -/
def halt (view : View) : View :=
  { view with memory := fun _ => none, unmapped := [], handles := 0, status := .halted }

/-- Writes the low eight bits of a number, which has no others unless the policy allows them. -/
def emit (view : View) (policy : OutputPolicy) (value : Nat) : Option View :=
  if value < 256 ∨ policy = .truncate then
    some { view with output := view.output ++ [value % 256] }
  else none

/-- Takes the next byte, or the number that stands for the end of the input. -/
def receive (view : View) : Option (Nat × View) :=
  match view.input.headD (.ok none) with
  | .ok (some byte) => some (byte.toNat, { view with input := view.input.tail })
  | .ok none => some (2 ^ 32 - 1, { view with input := view.input.tail })
  | .error _ => none

/-- The effect of an instruction word, if it has one. -/
def row (view : View) (policy : OutputPolicy) (word : Nat) : Option View :=
  let r := view.registers
  let a := slot word 6
  let b := slot word 3
  let c := slot word 0
  match word / 2 ^ 28 with
  | 0 => some (if r c = 0 then view else view.put a (r b)).advance
  | 1 => (view.load (r b) (r c)).map fun value => (view.put a value).advance
  | 2 => (view.store (r a) (r b) (r c)).map advance
  | 3 => some (view.put a ((r b + r c) % 2 ^ 32)).advance
  | 4 => some (view.put a (r b * r c % 2 ^ 32)).advance
  | 5 => if r c = 0 then none else some (view.put a (r b / r c)).advance
  | 6 => some (view.put a (2 ^ 32 - 1 - (r b &&& r c))).advance
  | 7 => some view.halt
  | 8 => (view.allocate (r c)).map fun (handle, view) => (view.put b handle).advance
  | 9 => (view.free (r c)).map advance
  | 10 => (view.emit policy (r c)).map advance
  | 11 => view.receive.map fun (value, view) => (view.put c value).advance
  | 12 =>
    if r b = 0 then some (view.goto (r c))
    else (view.install (r b)).map fun view => view.goto (r c)
  | 13 => some (view.put (slot word 25) (word % 2 ^ 25)).advance
  | _ => none

/-- The words of a segment as numbers. -/
def numbers (words : Segment) : List Nat :=
  words.toList.map UInt32.toNat

end View

/-- The machine in natural numbers. -/
def Machine.view (machine : Machine) : View where
  pc := machine.pc.toNat
  registers register := (machine.registers.get register).toNat
  memory handle := machine.store.table[handle]?.join.map View.numbers
  unmapped := machine.store.reusable.map Handle.index
  handles := machine.store.table.size
  input := Delivery.flatten machine.channels.input
  output := machine.channels.output.map UInt8.toNat
  status := machine.status

namespace View

theorem length_numbers (words : Segment) : (numbers words).length = words.size := by
  rw [numbers, List.length_map, Array.length_toList]

theorem getElem?_numbers (words : Segment) (i : Nat) :
    (numbers words)[i]? = words[i]?.map UInt32.toNat := by
  rw [numbers, List.getElem?_map, Array.getElem?_toList]

theorem numbers_setIfInBounds (words : Segment) (i : Nat) (word : Word) :
    numbers (words.setIfInBounds i word) = (numbers words).set i word.toNat := by
  rw [numbers, Array.toList_setIfInBounds, List.map_set, numbers]

theorem numbers_injective : Function.Injective numbers := by
  intro words others same
  apply Array.toList_inj.mp
  exact List.map_injective_iff.mpr (fun a b equal => UInt32.toNat_inj.mp equal) same

theorem numbers_replicate (length : Nat) :
    numbers (Array.replicate length 0) = List.replicate length 0 := by
  rw [numbers, Array.toList_replicate, List.map_replicate]
  rfl

end View

/-- Two tables of one size differ in what a handle names, if they differ. -/
theorem Store.eq_of_join_eq {store other : Store} (size : store.table.size = other.table.size)
    (entries : ∀ i : Nat, store.table[i]?.join = other.table[i]?.join)
    (reusable : store.reusable = other.reusable) : store = other := by
  have table : store.table = other.table := by
    apply Array.ext size
    intro i inside other_inside
    have entry := entries i
    rwa [Array.getElem?_eq_getElem inside, Array.getElem?_eq_getElem other_inside] at entry
  cases store
  cases other
  rw [Store.mk.injEq]
  exact ⟨table, reusable⟩

namespace Machine

/-- The table knows a machine down to its store and registers. -/
theorem eq_of_view_eq {machine other : Machine} (same : machine.view = other.view) :
    machine.pc = other.pc ∧ machine.registers = other.registers ∧ machine.store = other.store ∧
      machine.status = other.status := by
  obtain ⟨pc, registers, memory, unmapped, handles, -, -, status⟩ := View.mk.inj same
  refine ⟨UInt32.toNat_inj.mp pc, ?_, ?_, status⟩
  · ext i inside
    exact congrFun registers ⟨i, inside⟩
  · apply Store.eq_of_join_eq handles
    · intro i
      exact Option.map_injective View.numbers_injective (congrFun memory i)
    · exact List.map_injective_iff.mpr (fun g h same => Handle.index_inj.mp same) unmapped

variable {machine : Machine} {handle : Handle} {store : Store}

theorem view_put (machine : Machine) (target : Register) (word : Word) :
    (machine.put target word).view = machine.view.put target word.toNat := by
  refine View.ext rfl ?_ rfl rfl rfl rfl rfl rfl
  funext source
  simp only [view, put, View.put, Registers.get_put, Function.update_apply]
  split <;> rfl

/-! ## The store -/

theorem memory_view (machine : Machine) (handle : Handle) :
    machine.view.memory handle.index = (machine.store.find? handle).map View.numbers :=
  rfl

/-- An entry of the table is replaced by words, or by a gap. -/
theorem view_setIfInBounds (machine : Machine) {i : Nat} (inside : i < machine.store.table.size)
    (entry : Option Segment) (reusable : List Handle) :
    view { machine with store := ⟨machine.store.table.setIfInBounds i entry, reusable⟩ } =
      { machine.view.name i (entry.map View.numbers) with
        unmapped := reusable.map Handle.index } := by
  refine View.ext rfl rfl ?_ rfl Array.size_setIfInBounds rfl rfl rfl
  funext handle
  simp only [view, View.name, Function.update_apply, Array.getElem?_setIfInBounds]
  by_cases same : handle = i
  · simp [same, inside]
  · simp [same, Ne.symm same]

/-- The table grows by an entry. -/
theorem view_push (machine : Machine) (words : Segment) :
    view { machine with
        store := ⟨machine.store.table.push (some words), machine.store.reusable⟩ } =
      { machine.view.name machine.view.handles (some (View.numbers words)) with
        handles := machine.view.handles + 1 } := by
  refine View.ext rfl rfl ?_ rfl (Array.size_push _) rfl rfl rfl
  funext handle
  simp only [view, View.name, Function.update_apply, Array.getElem?_push]
  by_cases same : handle = machine.store.table.size
  · simp [same]
  · simp [same]

theorem view_load {offset word : Word} (read : machine.store.read handle offset = .ok word) :
    machine.view.load handle.index offset.toNat = some word.toNat := by
  obtain ⟨words, found, cell⟩ := Store.read_cases read
  rw [View.load, memory_view, found, Option.map_some, Option.bind_some, View.getElem?_numbers,
    cell, Option.map_some]

theorem view_store {offset word : Word}
    (written : machine.store.write handle offset word = .ok store) :
    machine.view.store handle.index offset.toNat word.toNat =
      some (view { machine with store }) := by
  obtain ⟨words, found, inside, rfl⟩ := Store.write_cases written
  rw [view_setIfInBounds machine (Store.index_lt_of_find? found), View.store, memory_view, found,
    Option.map_some, Option.bind_some, View.length_numbers, if_pos inside, Option.map_some,
    View.numbers_setIfInBounds]
  rfl

/-- The table agrees on the handle as well, since a handle from the stack has its place in the
table. -/
theorem view_allocate (wf : machine.store.WellFormed) {length : Nat} {memory : Bool}
    (allocated : machine.store.allocate length memory = .ok (handle, store)) :
    machine.view.allocate length = some (handle.index, view { machine with store }) := by
  obtain ⟨rest, stack, rfl⟩ | ⟨stack, room, rfl, rfl⟩ := Store.allocate_cases allocated
  · have reused : handle ∈ machine.store.reusable := by simp [stack]
    have unmapped : machine.view.unmapped = handle.index :: rest.map Handle.index := by
      rw [view, stack, List.map_cons]
    rw [view_setIfInBounds machine (wf.index_lt reused), View.allocate, unmapped, Option.map_some,
      View.numbers_replicate]
  · have unmapped : machine.view.unmapped = [] := by rw [view, stack, List.map_nil]
    have grown := view_push machine (Array.replicate length 0)
    rw [stack, View.numbers_replicate] at grown
    rw [grown, View.allocate, unmapped, Handle.index_ofIndex room]
    exact if_pos room

theorem view_free (freed : machine.store.free handle = .ok store) :
    machine.view.free handle.index = some (view { machine with store }) := by
  obtain ⟨other, ⟨words, found⟩, rfl⟩ := Store.free_cases freed
  have allowed : ¬ (handle.index = 0 ∨ machine.view.memory handle.index = none) := by
    rintro (program | missing)
    · exact other (Handle.index_inj.mp program)
    · simp [memory_view, found] at missing
  rw [view_setIfInBounds machine (Store.index_lt_of_find? found), View.free, if_neg allowed]
  rfl

theorem view_install (other : handle ≠ .program)
    (installed : machine.store.install handle = .ok store) :
    machine.view.install handle.index = some (view { machine with store }) := by
  obtain ⟨words, found, ⟨itself, -⟩ | ⟨-, rfl⟩⟩ := Store.install_cases installed
  · exact absurd itself other
  · have nonempty := Nat.zero_lt_of_lt (Store.index_lt_of_find? found)
    rw [view_setIfInBounds machine nonempty, View.install, memory_view, found]
    rfl

/-! ## The channels -/

section Channels

variable {channels : Channels}

theorem view_emit {policy : OutputPolicy} {word : Word} {byte : UInt8}
    (allowed : policy.byte? word = some byte)
    (delivered : machine.channels.deliver byte = (.ok (), channels)) :
    machine.view.emit policy word.toNat = some (view { machine with channels }) := by
  obtain ⟨fits, rfl⟩ := OutputPolicy.byte?_eq_some_iff.mp allowed
  obtain ⟨writes, rfl⟩ := Channels.deliver_cases delivered
  rw [View.emit, if_pos fits, Option.some.injEq]
  refine View.ext rfl rfl rfl rfl rfl rfl ?_ rfl
  simp only [view, Channels.output_push_byte, List.map_append, List.map_singleton,
    UInt32.toNat_toUInt8]

theorem view_receive {byte? : Option UInt8}
    (received : machine.channels.receive = (.ok byte?, channels)) :
    machine.view.receive = some ((inputWord byte?).toNat, view { machine with channels }) := by
  obtain ⟨flushes, answered, rfl⟩ := Channels.receive_cases received
  obtain ⟨head, tail⟩ := Delivery.takeByte_flatten machine.channels.input
  have next : machine.view.input.headD (.ok none) = .ok byte? := head.symm.trans answered
  have rest : view { machine with channels := { machine.channels with
      input := (Delivery.takeByte machine.channels.input).2
      flushes
      transcript := machine.channels.transcript.push .flush ++
        Array.replicate (Delivery.requests machine.channels.input) Transfer.read } } =
      { machine.view with input := machine.view.input.tail } := by
    refine View.ext rfl rfl rfl rfl rfl tail ?_ rfl
    simp only [view, Channels.output_receive]
  rw [View.receive, next, rest]
  cases byte? with
  | none => rfl
  | some byte => simp [inputWord]

end Channels

/-! ## One instruction -/

theorem view_settle_advance (machine : Machine) :
    (machine.settle .advance).2.view = machine.view.advance := by
  refine View.ext ?_ rfl rfl rfl rfl rfl rfl rfl
  exact UInt32.toNat_add machine.pc 1

section Instructions

variable {after : Machine} {next : Next}

/-- An instruction that computes a word and puts it into a register. -/
theorem row_put {out : Register} {word : Word} {value : Nat} (same : word.toNat = value)
    (executed : (.ok .advance, machine.put out word) =
      ((.ok next, after) : Except Fault Next × Machine)) :
    some (machine.view.put out value).advance = some (after.settle next).2.view := by
  cases executed
  rw [view_settle_advance, view_put, same]

theorem register_eq_zero_iff (machine : Machine) (source : Register) :
    machine.view.registers source = 0 ↔ machine.registers.get source = 0 :=
  UInt32.toNat_inj (b := 0)

theorem row_conditionalMove {out src cond : Register}
    (executed : machine.execute (.conditionalMove out src cond) = (.ok next, after)) :
    some (if machine.view.registers cond = 0 then machine.view
      else machine.view.put out (machine.view.registers src)).advance =
      some (after.settle next).2.view := by
  have zero := machine.register_eq_zero_iff cond
  simp only [execute] at executed
  split at executed
  · next holds =>
      cases executed
      rw [if_pos (zero.mpr holds), view_settle_advance]
  · next fails =>
      rw [if_neg (mt zero.mp fails)]
      exact row_put rfl executed

theorem row_divide {out left right : Register}
    (executed : machine.execute (.divide out left right) = (.ok next, after)) :
    (if machine.view.registers right = 0 then none
      else some (machine.view.put out
        (machine.view.registers left / machine.view.registers right)).advance) =
      some (after.settle next).2.view := by
  have zero := machine.register_eq_zero_iff right
  simp only [execute] at executed
  split at executed
  · cases executed
  · next fails =>
      rw [if_neg (mt zero.mp fails)]
      exact row_put (UInt32.toNat_div _ _) executed

theorem row_load {out : Register} {offset : Word}
    (executed : machine.load out handle offset = (.ok next, after)) :
    (machine.view.load handle.index offset.toNat).map (fun value =>
      (machine.view.put out value).advance) = some (after.settle next).2.view := by
  unfold load at executed
  split at executed
  · next word read =>
      cases executed
      rw [view_load read, view_settle_advance, view_put, Option.map_some]
  · cases executed

theorem row_resume {written : Except Fault Store} {view : Option View}
    (conforms : ∀ store, written = .ok store → view = some (Machine.view { machine with store }))
    (executed : { machine with store := ∅ }.resume written = (.ok next, after)) :
    view.map View.advance = some (after.settle next).2.view := by
  cases written with
  | ok store =>
      cases executed
      rw [conforms store rfl, view_settle_advance, Option.map_some]
  | error fault => cases executed

theorem row_map (wf : machine.store.WellFormed) {out : Register} {length : Nat}
    (executed : machine.map out length = (.ok next, after)) :
    (machine.view.allocate length).map (fun (handle, view) => (view.put out handle).advance) =
      some (after.settle next).2.view := by
  simp only [map, takeStore] at executed
  split at executed
  · next handle store allocated =>
      cases executed
      rw [view_allocate wf allocated, view_settle_advance, view_put]
      rfl
  · cases executed

theorem row_unmap (executed : machine.unmap handle = (.ok next, after)) :
    (machine.view.free handle.index).map View.advance = some (after.settle next).2.view := by
  simp only [unmap, takeStore] at executed
  split at executed
  · next store freed =>
      cases executed
      rw [view_free freed, view_settle_advance]
      rfl
  · cases executed

theorem row_jump {target : Word} (executed : machine.jump handle target = (.ok next, after)) :
    (if handle.index = 0 then some (machine.view.goto target.toNat)
      else (machine.view.install handle.index).map fun view => view.goto target.toNat) =
      some (after.settle next).2.view := by
  simp only [jump, takeStore] at executed
  split at executed
  · next program =>
      cases executed
      rw [program]
      rfl
  · next other =>
      have elsewhere : handle.index ≠ 0 := fun zero => other (Handle.index_inj.mp zero)
      split at executed
      · next store installed =>
          cases executed
          rw [if_neg elsewhere, view_install other installed]
          rfl
      · cases executed

theorem row_output {word : Word} (executed : machine.output word = (.ok next, after)) :
    (machine.view.emit machine.config.outputPolicy word.toNat).map View.advance =
      some (after.settle next).2.view := by
  simp only [output, takeChannels] at executed
  split at executed
  · cases executed
  · next byte allowed =>
      split at executed
      · next channels delivered =>
          cases executed
          rw [view_emit allowed delivered, view_settle_advance]
          rfl
      · cases executed

theorem row_input {out : Register} (executed : machine.input out = (.ok next, after)) :
    machine.view.receive.map (fun (value, view) => (view.put out value).advance) =
      some (after.settle next).2.view := by
  simp only [input, takeChannels] at executed
  split at executed
  · next byte? channels received =>
      cases executed
      rw [view_receive received, view_settle_advance, view_put]
      rfl
  · cases executed

theorem slot_eq (slot : BitField 3) (word : Word) :
    View.slot word.toNat slot.lsb = Layout.register slot word :=
  Fin.ext (Layout.val_register slot word).symm

/-- Every instruction that succeeds does what its row of the table says. -/
theorem row_of_execute (wf : machine.store.WellFormed) {op : Opcode} {word : Word}
    (number : op.number = word.toNat / 2 ^ 28)
    (executed : machine.execute (Instr.ofOpcode op word) = (.ok next, after)) :
    machine.view.row machine.config.outputPolicy word.toNat =
      some (after.settle next).2.view := by
  have slotA : View.slot word.toNat 6 = Layout.register Layout.slotA word :=
    slot_eq Layout.slotA word
  have slotB : View.slot word.toNat 3 = Layout.register Layout.slotB word :=
    slot_eq Layout.slotB word
  have slotC : View.slot word.toNat 0 = Layout.register Layout.slotC word :=
    slot_eq Layout.slotC word
  have immediateSlot : View.slot word.toNat 25 = Layout.register Layout.immediateSlot word :=
    slot_eq Layout.immediateSlot word
  simp only [View.row, ← number, slotA, slotB, slotC, immediateSlot]
  cases op with
  | conditionalMove => exact row_conditionalMove executed
  | load => exact row_load executed
  | store => exact row_resume (fun store => view_store) executed
  | add => exact row_put (UInt32.toNat_add _ _) executed
  | multiply => exact row_put (UInt32.toNat_mul _ _) executed
  | divide => exact row_divide executed
  | nand =>
      apply row_put _ executed
      rw [UInt32.toNat_not, UInt32.toNat_and]
      rfl
  | halt =>
      cases executed
      rfl
  | map => exact row_map wf executed
  | unmap => exact row_unmap executed
  | output => exact row_output executed
  | input => exact row_input executed
  | loadProgram => exact row_jump executed
  | loadImmediate => exact row_put (Layout.toNat_immediateValue word) executed

end Instructions

/-! ## One step -/

/-- The machine that takes a step is the machine that the table speaks of: counting and logging
an instruction changes nothing the table knows. -/
theorem view_enter (machine : Machine) (instruction : Instruction) :
    (machine.enter instruction).view = machine.view :=
  rfl

/-- A step that succeeds does what the table says of the word at the program counter. The handle
that the table takes when a segment is mapped is the one that the history of the store says was
unmapped last and not used since. Beyond what the table speaks of, the step counts the operation
and keeps the configuration, and only an output or an input meets the devices. -/
theorem step_conforms {machine next : Machine} {history : List Store.Call} {status : Status}
    (reached : machine.store = (∅ : Store).after history) (running : machine.status = .running)
    (stepped : machine.step = (.ok status, next)) :
    machine.view.unmapped =
      (Store.pending ((∅ : Store).exchanges history)).map Handle.index ∧
    ∃ word op, machine.view.load 0 machine.view.pc = some word ∧ op.number = word / 2 ^ 28 ∧
      machine.view.row machine.config.outputPolicy word = some next.view ∧
      next.status = status ∧ next.config = machine.config ∧
      next.profile = machine.profile.record op ∧
      (op ≠ .output → op ≠ .input → next.channels = machine.channels) := by
  have wf : machine.store.WellFormed := reached ▸ Store.wellFormed_after history
  refine ⟨by rw [view, reached, Store.reusable_of_history], ?_⟩
  obtain ⟨word, instruction, way, after, read, decoded, executed, settled⟩ :=
    step_eq_ok running stepped
  obtain ⟨op, number, rfl⟩ := Instr.decode_eq_ok_iff.mp decoded
  rw [Layout.opcodeNumber_eq] at number
  have entered_wf : (machine.enter (Instr.ofOpcode op word)).store.WellFormed := wf
  have row := row_of_execute entered_wf number executed
  rw [view_enter] at row
  obtain ⟨still, config, profile, channels⟩ := settled_frame running executed settled
  rw [Instr.opcode_ofOpcode] at profile channels
  rw [settled] at row
  exact ⟨word.toNat, op, view_load read, number, row, still, config, profile, channels⟩

/-- The segment mapped here gets the handle of the second of two that were unmapped, and the
register that asks for its length also takes its handle. -/
theorem step_conforms_map :
    let history : List Store.Call := [.allocate 1, .allocate 3, .allocate 4, .free ⟨1⟩, .free ⟨2⟩,
      .write .program 0 0x80000009]
    let machine : Machine :=
      { registers := Registers.zeroed.put 1 5
        store := (∅ : Store).after history
        channels := { input := [] } }
    machine.step.1 = .ok .running ∧ machine.step.2.registers.get 1 = 2 ∧
    machine.view.unmapped =
      (Store.pending ((∅ : Store).exchanges history)).map Handle.index ∧
    ∃ word op, machine.view.load 0 machine.view.pc = some word ∧ op.number = word / 2 ^ 28 ∧
      machine.view.row machine.config.outputPolicy word = some machine.step.2.view ∧
      machine.step.2.status = .running ∧ machine.step.2.config = machine.config ∧
      machine.step.2.profile = machine.profile.record op ∧
      (op ≠ .output → op ≠ .input → machine.step.2.channels = machine.channels) := by
  intro history machine
  have succeeds : machine.step.1 = .ok .running := by decide +kernel
  have stepped : machine.step = (.ok .running, machine.step.2) := Prod.ext succeeds rfl
  exact ⟨succeeds, by decide +kernel, step_conforms rfl rfl stepped⟩

end Machine

end UniversalMachine
