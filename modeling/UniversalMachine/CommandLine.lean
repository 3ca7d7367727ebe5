import UniversalMachine.Machine.Run

/-!
# The command line

The arguments name one program and may set options. Reading them stops at the first that
makes no sense. Two dashes alone make all arguments after them names of programs.
-/

namespace UniversalMachine

namespace CommandLine

/-- What the arguments ask for. -/
inductive Request where
  | help
  | run (program : String) (config : Config)
deriving DecidableEq, Repr

inductive UsageError where
  | missingProgram
  | emptyProgram
  | unexpected (argument : String)
  | repeated (option : String)
  | missingValue (option : String)
  | notANumber (option value : String)
deriving DecidableEq, Repr

def UsageError.message : UsageError → String
  | missingProgram => "the PROGRAM argument is missing"
  | emptyProgram => "the PROGRAM argument is empty"
  | unexpected argument => s!"unexpected argument {argument}"
  | repeated option => s!"option {option} was given more than once"
  | missingValue option => s!"option {option} needs a value"
  | notANumber option value => s!"invalid value {value} for option {option}"

def help : String :=
  String.join ([
    "Runs a Universal Machine program image",
    "",
    "Usage: um [OPTIONS] <PROGRAM>",
    "",
    "Arguments:",
    "  <PROGRAM>  Path to the program image. Every 4 bytes, read big-endian, are one instruction",
    "",
    "Options:",
    "      --mask-output      Write the low 8 bits of an out-of-range output value instead of failing",
    "      --max-steps <NUM>  Fail the run once this many instructions have executed",
    "      --profile          Log how many times each instruction ran",
    "  -h, --help             Print help"].map (· ++ "\n"))

/-- The form of a single argument. -/
inductive Argument where
  /-- Two dashes alone. -/
  | separator
  /-- Two dashes and a name, possibly with an equals sign and a value. -/
  | long (name : String) (value : Option String)
  /-- One dash and letters. -/
  | short (first : Char) (rest : List Char)
  /-- Anything else, a single dash included. -/
  | plain (text : String)
deriving DecidableEq, Repr

def Argument.ofString (text : String) : Argument :=
  match text.toList with
  | ['-', '-'] => .separator
  | '-' :: '-' :: chars =>
    let name := String.ofList (chars.takeWhile (· ≠ '='))
    match chars.dropWhile (· ≠ '=') with
    | [] => .long name none
    | _ :: value => .long name (some (String.ofList value))
  | '-' :: first :: rest => .short first rest
  | _ => .plain text

/-- The value of a nonempty row of decimal digits. -/
def digits? (chars : List Char) : Option Nat :=
  if chars ≠ [] ∧ chars.all Char.isDigit then
    some (chars.foldl (fun value c => 10 * value + (c.toNat - '0'.toNat)) 0)
  else none

/-- A number below `2 ^ 64` in decimal digits, with or without a plus sign. -/
def number? (text : String) : Option Nat :=
  let value? :=
    match text.toList with
    | '+' :: chars => digits? chars
    | chars => digits? chars
  value?.filter (· < UInt64.size)

/-- What the arguments read so far have set. -/
structure Settings where
  program : Option String := none
  maskOutput : Bool := false
  maxSteps : Option Nat := none
  profile : Bool := false

namespace Settings

def addProgram (settings : Settings) (path : String) : Except UsageError Settings :=
  if settings.program.isSome then .error (.unexpected path)
  else if path = "" then .error .emptyProgram
  else .ok { settings with program := some path }

def addMaskOutput (settings : Settings) : Except UsageError Settings :=
  if settings.maskOutput then .error (.repeated "--mask-output")
  else .ok { settings with maskOutput := true }

def addProfile (settings : Settings) : Except UsageError Settings :=
  if settings.profile then .error (.repeated "--profile")
  else .ok { settings with profile := true }

def addMaxSteps (settings : Settings) (value : String) : Except UsageError Settings :=
  if settings.maxSteps.isSome then .error (.repeated "--max-steps")
  else
    match number? value with
    | some limit => .ok { settings with maxSteps := some limit }
    | none => .error (.notANumber "--max-steps" value)

def request (settings : Settings) : Except UsageError Request :=
  match settings.program with
  | none => .error .missingProgram
  | some program =>
    .ok (.run program
      { outputPolicy := if settings.maskOutput then .truncate else .reject
        stepLimit := settings.maxSteps
        profile := settings.profile })

/-- Reads arguments on top of what is set already. -/
def read (settings : Settings) : List String → Except UsageError Request
  | [] => settings.request
  | argument :: rest =>
    match Argument.ofString argument with
    | .separator => do
      let settings ← rest.foldlM addProgram settings
      settings.request
    | .plain path => do
      let settings ← settings.addProgram path
      settings.read rest
    | .short first _ => if first = 'h' then .ok .help else .error (.unexpected argument)
    | .long "help" none => .ok .help
    | .long "mask-output" none => do
      let settings ← settings.addMaskOutput
      settings.read rest
    | .long "profile" none => do
      let settings ← settings.addProfile
      settings.read rest
    | .long "max-steps" (some value) => do
      let settings ← settings.addMaxSteps value
      settings.read rest
    | .long "max-steps" none =>
      match rest with
      | [] => .error (.missingValue argument)
      | value :: rest =>
        match Argument.ofString value with
        | .plain value => do
          let settings ← settings.addMaxSteps value
          settings.read rest
        | _ => .error (.missingValue argument)
    | .long _ _ => .error (.unexpected argument)

end Settings

/-- What a list of arguments asks for. -/
def parse (args : List String) : Except UsageError Request :=
  Settings.read {} args

/-- The part of the program that an event comes from, as the lines of the log name it. -/
def origin : Event → String
  | .dropped .. => "um_emu::loader"
  | .store .. => "um_emu::segments"
  | .loaded .. => "um_emu::loader"
  | .loadFailed .. => "um_emu"
  | .execute .. => "um_emu::cpu"
  | .halted .. => "um_emu::cpu"
  | .failed .. => "um_emu::cpu"
  | .profile .. => "um_emu::profile"
  | .executions .. => "um_emu::profile"

/-- Errors are always shown, and the profile if it was asked for. -/
def threshold (config : Config) : Severity :=
  if config.profile then .info else .error

/-- The lines of the log that are shown. -/
def shownLines (config : Config) (log : List Event) : List String :=
  (log.filter fun event => (threshold config).shows event.severity).map fun event =>
    event.severity.name ++ " " ++ origin event ++ ": " ++ event.text

/-- The exit code for arguments that make no sense and for a program that cannot be opened. -/
def usageCode : Nat :=
  2

/-- What an execution of the command shows. -/
structure Report where
  code : Nat
  output : List UInt8
  log : List String
deriving DecidableEq, Repr

/-- Executes the command on the standard input that is given, unless the program takes more steps
than the budget. What a path leads to is the host's answer to opening it for reading, if it can be
opened. -/
def execute (args : List String) (opened : String → Option (List Delivery)) (stdin : List UInt8)
    (budget : Nat) : Option Report :=
  match parse args with
  | .error _ => some ⟨usageCode, [], []⟩
  | .ok .help => some ⟨0, help.toUTF8.toList, []⟩
  | .ok (.run program config) =>
    match opened program with
    | none => some ⟨usageCode, [], []⟩
    | some image =>
      (run image { input := [.chunk stdin] } config budget).map fun outcome =>
        { code := outcome.ending.code
          output := outcome.channels.output
          log := shownLines config outcome.log.toList }

end CommandLine

end UniversalMachine
