import UniversalMachine.Machine

/-!
# Runs

A run loads an image and steps the machine until it stops; then the output is passed on a
last time and the log gets its closing events. Programs need not stop, so a run is given a
budget of steps and has no outcome if the budget does not suffice.
-/

namespace UniversalMachine

/-- How a run ended. -/
inductive Ending where
  | halted
  | failed (fault : Fault)
deriving DecidableEq, Repr

/-- The exit code that reports an ending. -/
def Ending.code : Ending → Nat
  | halted => 0
  | failed _ => 1

namespace Machine

/-- A machine with the program of an image, and the events of loading it. -/
def ofImage (image : List Delivery) (channels : Channels) (config : Config) :
    Except Fault Machine × List Event :=
  let (result, events) := Image.load image (config.hasMemory 0)
  (result.map fun store => { store, channels, config, log := events.toArray }, events)

/-- Passes on the last output and closes the log. The fault that stopped the machine counts for
more than a failure of the output. -/
def finish (machine : Machine) (stopped : Except Fault Unit) : Ending × Machine :=
  let (channels, machine) := machine.takeChannels
  let (flushed, channels) := channels.flush
  let machine := { machine with channels }
  let steps := machine.profile.steps
  let (ending, closing) : Ending × Event :=
    match stopped, flushed with
    | .error fault, _ => (.failed fault, .failed fault machine.pc steps)
    | .ok (), .error error =>
      (.failed (.channel error), .failed (.channel error) machine.pc steps)
    | .ok (), .ok () => (.halted, .halted steps)
  let report := if machine.config.profile then machine.profile.report else []
  (ending, { machine with log := machine.log.push closing ++ report })

/-- Steps a machine until it stops, at most as often as the budget allows. -/
def run (machine : Machine) : Nat → Option (Ending × Machine)
  | 0 => none
  | budget + 1 =>
    match machine.step with
    | (.ok .running, machine) => machine.run budget
    | (.ok _, machine) => some (machine.finish (.ok ()))
    | (.error fault, machine) => some (machine.finish (.error fault))

end Machine

/-- What a run leaves behind. -/
structure Outcome where
  ending : Ending
  channels : Channels
  log : Array Event
deriving DecidableEq

/-- Loads an image and runs it to its end, unless that takes more steps than the budget. -/
def run (image : List Delivery) (channels : Channels) (config : Config) (budget : Nat) :
    Option Outcome :=
  match Machine.ofImage image channels config with
  | (.error fault, events) =>
    some ⟨.failed fault, channels, (events ++ [Event.loadFailed fault]).toArray⟩
  | (.ok machine, _) =>
    (machine.run budget).map fun (ending, machine) => ⟨ending, machine.channels, machine.log⟩

end UniversalMachine
