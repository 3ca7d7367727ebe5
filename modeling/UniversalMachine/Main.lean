import UniversalMachine.CommandLine

/-!
# The command

Connects a machine to a program file and the standard streams. The devices answer ahead
of each step what the machine is about to ask, and what the machine has written and logged
is passed on.
-/

namespace UniversalMachine

namespace Command

/-- What the system calls a failure, with its number for it. -/
def numbered (details : String) (code : UInt32) : String :=
  s!"{details} (os error {code})"

/-- The text of a failed request to the system. -/
def failureText : IO.Error → String
  | .alreadyExists _ code details => numbered details code
  | .otherError code details => numbered details code
  | .resourceBusy code details => numbered details code
  | .resourceVanished code details => numbered details code
  | .unsupportedOperation code details => numbered details code
  | .hardwareFault code details => numbered details code
  | .unsatisfiedConstraints code details => numbered details code
  | .illegalOperation code details => numbered details code
  | .protocolError code details => numbered details code
  | .timeExpired code details => numbered details code
  | .interrupted _ code details => numbered details code
  | .noFileOrDirectory _ code details => numbered details code
  | .invalidArgument _ code details => numbered details code
  | .permissionDenied _ code details => numbered details code
  | .resourceExhausted _ code details => numbered details code
  | .inappropriateType _ code details => numbered details code
  | .noSuchThing _ code details => numbered details code
  | error => toString error

/-- The next step reads a byte, and no answer of the input is at hand. -/
def awaitsInput (machine : Machine) : Bool :=
  match machine.upcoming with
  | .ok (.input _) => machine.channels.input.isEmpty
  | _ => false

/-- Passes the written bytes on. A failure is the answer to the machine's next flush. -/
def passOn (machine : Machine) : IO Machine := do
  let written := ByteArray.mk machine.channels.output.toArray
  let channels := { machine.channels with transcript := #[] }
  try
    let stdout ← IO.getStdout
    stdout.write written
    stdout.flush
    return { machine with channels }
  catch error =>
    return { machine with
      channels := { channels with flushes := [.failure (failureText error)] } }

/-- Asks the standard input for a byte. -/
def request : IO Delivery := do
  try
    let bytes ← (← IO.getStdin).read 1
    return .chunk bytes.toList
  catch error =>
    return .failure (failureText error)

/-- Shows the lines of the log and forgets the events. -/
def showLog (machine : Machine) : IO Machine := do
  for line in CommandLine.shownLines machine.config machine.log.toList do
    IO.eprintln line
  return { machine with log := #[] }

/-- Gets ready what the next step needs. -/
def prepare (machine : Machine) : IO Machine := do
  let machine ← if 1024 ≤ machine.log.size then showLog machine else pure machine
  if awaitsInput machine then
    let machine ← passOn machine
    let delivery ← request
    return { machine with channels := { machine.channels with input := [delivery] } }
  else if 8192 ≤ machine.channels.transcript.size then
    passOn machine
  else
    return machine

/-- Ends a run and answers the exit code. -/
def close (machine : Machine) (stopped : Except Fault Unit) : IO UInt32 := do
  let machine ← passOn machine
  let (ending, machine) := machine.finish stopped
  let _ ← showLog machine
  return UInt32.ofNat ending.code

/-- Steps a machine until it stops. -/
partial def serve (machine : Machine) : IO UInt32 := do
  let machine ← prepare machine
  match machine.step with
  | (.ok .running, machine) => serve machine
  | (.ok _, machine) => close machine (.ok ())
  | (.error fault, machine) => close machine (.error fault)

/-- Opens a file for reading. -/
def openFile (path : String) : IO (Option IO.FS.Handle) := do
  try
    return some (← IO.FS.Handle.mk path .read)
  catch error =>
    IO.eprintln s!"could not open {path}: {failureText error}"
    return none

/-- Reads a file to its end. -/
def readFile (file : IO.FS.Handle) : IO Delivery := do
  try
    let bytes ← file.readBinToEnd
    return .chunk bytes.toList
  catch error =>
    return .failure (failureText error)

/-- Runs the program of a file. -/
def start (program : String) (config : Config) : IO UInt32 := do
  match ← openFile program with
  | none => return UInt32.ofNat CommandLine.usageCode
  | some file =>
    match Machine.ofImage [← readFile file] { input := [] } config with
    | (.ok machine, _) => serve machine
    | (.error fault, events) =>
      for line in CommandLine.shownLines config (events ++ [.loadFailed fault]) do
        IO.eprintln line
      return UInt32.ofNat (Ending.failed fault).code

end Command

end UniversalMachine

open UniversalMachine

/-- Does what the arguments ask for. -/
def main (args : List String) : IO UInt32 := do
  match CommandLine.parse args with
  | .ok .help =>
    IO.print CommandLine.help
    return 0
  | .ok (.run program config) => Command.start program config
  | .error error =>
    IO.eprintln error.message
    return UInt32.ofNat CommandLine.usageCode
