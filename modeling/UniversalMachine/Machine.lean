import UniversalMachine.Config
import UniversalMachine.Image
import UniversalMachine.Instr.Encoding

/-!
# The machine

A machine executes the instructions of its program one at a time. A step first checks the
step limit, then fetches and decodes the word at the program counter, counts the
instruction, and executes it. A fault ends the machine for good: the program counter and
the registers stay as they were before the step, and every segment is released.
-/

namespace UniversalMachine

/-- Whether a machine still runs, and if not, why. -/
inductive Status where
  | running
  | halted
  | failed
deriving DecidableEq, Repr

/-- Where execution continues after an instruction. -/
inductive Next where
  | advance
  | jump (target : Word)
  | halt
deriving DecidableEq, Repr

/-- A machine before its next step. The program is segment 0 of the store. -/
structure Machine where
  pc : Word := 0
  registers : Registers := .zeroed
  store : Store
  channels : Channels
  config : Config := {}
  profile : Profile := .empty
  status : Status := .running
  /-- What happened so far, the oldest event first. -/
  log : Array Event := #[]
deriving DecidableEq

namespace Machine

/-- Adds an event to the log. -/
def note (machine : Machine) (event : Event) : Machine :=
  { machine with log := machine.log.push event }

/-- Puts a word into a register. -/
def put (machine : Machine) (target : Register) (word : Word) : Machine :=
  { machine with registers := machine.registers.put target word }

/-- Takes the store out of the machine, which has none until it gets one back. The store then
has a single owner, and its operations need not copy it. -/
def takeStore (machine : Machine) : Store × Machine :=
  (machine.store, { machine with store := ∅ })

/-- Takes the channels out of the machine, as `takeStore` does with the store. -/
def takeChannels (machine : Machine) : Channels × Machine :=
  (machine.channels, { machine with channels := { input := [] } })

/-- Reads the cell that an instruction names. -/
def load (machine : Machine) (out : Register) (handle : Handle) (offset : Word) :
    Except Fault Next × Machine :=
  match machine.store.read handle offset with
  | .ok word => (.ok .advance, machine.put out word)
  | .error fault => (.error fault, machine)

/-- Puts the store back after an operation on it. A fault leaves the machine without one, as
every fault does. -/
def resume (machine : Machine) : Except Fault Store → Except Fault Next × Machine
  | .ok store => (.ok .advance, { machine with store })
  | .error fault => (.error fault, machine)

/-- Whether the host has memory for a new segment now. -/
def hasMemory (machine : Machine) : Bool :=
  machine.config.hasMemory machine.profile.steps

/-- Maps a segment and puts its handle into a register. -/
def map (machine : Machine) (out : Register) (length : Nat) : Except Fault Next × Machine :=
  let memory := machine.hasMemory
  let (store, machine) := machine.takeStore
  match store.allocate length memory with
  | .ok (handle, store) =>
    let machine := { machine with store }
    (.ok .advance, (machine.note (.store (.mapped handle length))).put out handle.word)
  | .error fault => (.error fault, machine)

/-- Unmaps a segment. -/
def unmap (machine : Machine) (handle : Handle) : Except Fault Next × Machine :=
  let (store, machine) := machine.takeStore
  match store.free handle with
  | .ok store =>
    let machine := { machine with store }
    (.ok .advance, machine.note (.store (.unmapped handle)))
  | .error fault => (.error fault, machine)

/-- Makes a copy of a segment the program and jumps into it. With the handle of the program
itself it is a jump and nothing else. -/
def jump (machine : Machine) (handle : Handle) (target : Word) : Except Fault Next × Machine :=
  if handle = .program then (.ok (.jump target), machine)
  else
    let (store, machine) := machine.takeStore
    match store.install handle with
    | .ok store =>
      let length := (store.find? handle).elim 0 Array.size
      let machine := { machine with store }
      (.ok (.jump target), machine.note (.store (.installed handle length)))
    | .error fault => (.error fault, machine)

/-- Writes a word as a byte, if the configuration allows it. -/
def output (machine : Machine) (word : Word) : Except Fault Next × Machine :=
  match machine.config.outputPolicy.byte? word with
  | none => (.error (.outputOutOfRange word), machine)
  | some byte =>
    let (channels, machine) := machine.takeChannels
    match channels.deliver byte with
    | (.ok (), channels) => (.ok .advance, { machine with channels })
    | (.error error, channels) => (.error (.channel error), { machine with channels })

/-- Reads a byte into a register. -/
def input (machine : Machine) (out : Register) : Except Fault Next × Machine :=
  let (channels, machine) := machine.takeChannels
  match channels.receive with
  | (.ok byte?, channels) =>
    let machine := { machine with channels }
    (.ok .advance, machine.put out (inputWord byte?))
  | (.error error, channels) => (.error (.channel error), { machine with channels })

/-- Executes an instruction, all but moving the program counter. Every operand is read before
anything changes. -/
def execute (machine : Machine) : Instruction → Except Fault Next × Machine
  | .conditionalMove out src cond =>
    if machine.registers.get cond = 0 then (.ok .advance, machine)
    else (.ok .advance, machine.put out (machine.registers.get src))
  | .load out seg offset =>
    machine.load out ⟨machine.registers.get seg⟩ (machine.registers.get offset)
  | .store seg offset val =>
    let (store, machine) := machine.takeStore
    machine.resume
      (store.write ⟨machine.registers.get seg⟩ (machine.registers.get offset)
        (machine.registers.get val))
  | .add out left right =>
    (.ok .advance, machine.put out (machine.registers.get left + machine.registers.get right))
  | .multiply out left right =>
    (.ok .advance, machine.put out (machine.registers.get left * machine.registers.get right))
  | .divide out left right =>
    if machine.registers.get right = 0 then (.error .divideByZero, machine)
    else
      (.ok .advance, machine.put out (machine.registers.get left / machine.registers.get right))
  | .nand out left right =>
    (.ok .advance,
      machine.put out (~~~(machine.registers.get left &&& machine.registers.get right)))
  | .halt => (.ok .halt, machine)
  | .map out len => machine.map out (machine.registers.get len).toNat
  | .unmap seg => machine.unmap ⟨machine.registers.get seg⟩
  | .output val => machine.output (machine.registers.get val)
  | .input out => machine.input out
  | .loadProgram seg target =>
    machine.jump ⟨machine.registers.get seg⟩ (machine.registers.get target)
  | .loadImmediate out value => (.ok .advance, machine.put out value)

/-- The instruction at the program counter. -/
def fetch (machine : Machine) : Except Fault Instruction :=
  match machine.store.program with
  | .error fault => .error fault
  | .ok words =>
    match words[machine.pc.toNat]? with
    | some word => Instr.decode word
    | none => .error (.pcOutOfBounds machine.pc words.size)

/-- The instruction that the next step executes, if the step limit leaves one. -/
def upcoming (machine : Machine) : Except Fault Instruction :=
  match machine.config.stepLimit with
  | none => machine.fetch
  | some limit =>
    if limit ≤ machine.profile.steps then .error (.stepLimitExceeded limit)
    else machine.fetch

/-- Logs and counts an instruction before it is executed. -/
def enter (machine : Machine) (instruction : Instruction) : Machine :=
  { machine with
    profile := machine.profile.record instruction.opcode
    log := machine.log.push (.execute machine.pc instruction) }

/-- Ends the machine and releases every segment. -/
def stop (machine : Machine) (status : Status) : Machine :=
  { machine with status, store := ∅ }

/-- Executes one instruction. A machine that has stopped answers how, and does nothing. -/
def step (machine : Machine) : Except Fault Status × Machine :=
  if machine.status ≠ .running then (.ok machine.status, machine)
  else
    match machine.upcoming with
    | .error fault => (.error fault, machine.stop .failed)
    | .ok instruction =>
      match (machine.enter instruction).execute instruction with
      | (.ok .advance, machine) => (.ok .running, { machine with pc := machine.pc + 1 })
      | (.ok (.jump target), machine) => (.ok .running, { machine with pc := target })
      | (.ok .halt, machine) => (.ok .halted, machine.stop .halted)
      | (.error fault, machine) => (.error fault, machine.stop .failed)

end Machine

end UniversalMachine
