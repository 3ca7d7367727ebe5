import UniversalMachine.Instr
import UniversalMachine.Percentage
import UniversalMachine.Profile
import UniversalMachine.Store.Call

/-!
# The log

A run leaves a log of events. Each event has a severity and a line of text, so that a reader
can choose how much of the story to see.
-/

namespace UniversalMachine

/-- How much an event matters. -/
inductive Severity where
  | error
  | info
  | debug
  | trace
deriving DecidableEq, Repr

namespace Severity

/-- Every severity, the most severe first. -/
def all : List Severity :=
  [error, info, debug, trace]

def name : Severity → String
  | error => "ERROR"
  | info => "INFO"
  | debug => "DEBUG"
  | trace => "TRACE"

def rank : Severity → Nat
  | error => 0
  | info => 1
  | debug => 2
  | trace => 3

/-- A log kept at this severity shows events that are at least as severe. -/
def shows (threshold event : Severity) : Bool :=
  event.rank ≤ threshold.rank

end Severity

/-- Something that happened while an image was loaded or a machine ran. -/
inductive Event where
  /-- The bytes at the end of an image that fill no word. -/
  | dropped (bytes : Nat)
  | store (event : Store.Event)
  | loaded (words : Nat)
  | loadFailed (fault : Fault)
  /-- An instruction was fetched and is about to be executed. -/
  | execute (pc : Word) (instruction : Instruction)
  | halted (steps : Nat)
  | failed (fault : Fault) (pc : Word) (steps : Nat)
  /-- The heading of a profile. -/
  | profile (steps : Nat)
  /-- The line of a profile for one operation. -/
  | executions (op : Opcode) (count steps : Nat)
deriving DecidableEq, Repr

namespace Event

def severity : Event → Severity
  | dropped .. => .debug
  | store .. => .trace
  | loaded .. => .debug
  | loadFailed .. => .error
  | execute .. => .trace
  | halted .. => .debug
  | failed .. => .error
  | profile .. => .info
  | executions .. => .info

/-- Text with blanks in front of it up to the given width. -/
def alignRight (width : Nat) (text : String) : String :=
  "".pushn ' ' (width - text.length) ++ text

def text : Event → String
  | dropped bytes => s!"program image is not a whole number of words dropped={bytes}"
  | store (.mapped handle length) => s!"mapped segment handle={handle.text} length={length}"
  | store (.unmapped handle) => s!"unmapped segment handle={handle.text}"
  | store (.installed handle length) =>
    s!"installed program handle={handle.text} length={length}"
  | loaded words => s!"loaded program words={words}"
  | loadFailed fault => s!"could not load program: {fault.message}"
  | execute pc instruction => s!"execute pc={pc.toNat} instr={instruction.text}"
  | halted steps => s!"machine halted steps={steps}"
  | failed fault pc steps =>
    s!"machine fault: {fault.message} pc={pc.toNat} steps={steps}"
  | profile steps => s!"execution profile steps={steps}"
  | executions op count steps =>
    alignRight 6 op.mnemonic ++ ": " ++ alignRight 12 (toString count) ++ " (" ++
      alignRight 5 (Percentage.text count steps) ++ "%)"

/-- The text behind the name of its severity. -/
def line (event : Event) : String :=
  event.severity.name ++ " " ++ event.text

end Event

/-- The lines that report a profile. -/
def Profile.report (profile : Profile) : List Event :=
  .profile profile.steps ::
    profile.hottest.map fun entry => .executions entry.1 entry.2 profile.steps

end UniversalMachine
