import UniversalMachine.Word

/-!
# Machine configuration

What is settled before a machine starts: what was asked for, and when the host will have no memory.
-/

namespace UniversalMachine

/-- What an output instruction does with a word that is not a byte. -/
inductive OutputPolicy where
  /-- It fails. -/
  | reject
  /-- It writes the low eight bits. -/
  | truncate
deriving DecidableEq, Repr

/-- The defaults are those of a run that nothing was asked of, on a host that has memory for it. -/
structure Config where
  outputPolicy : OutputPolicy := .reject
  /-- How many instructions may be executed. -/
  stepLimit : Option Nat := none
  /-- Whether the profile is reported when the run ends. -/
  profile : Bool := false
  /-- When the host has no memory for a new segment, by the number of instructions that were started
  until then. The program is loaded at zero. -/
  shortages : List Nat := []
deriving DecidableEq, Repr

/-- Whether the host has memory for a new segment after so many instructions. -/
def Config.hasMemory (config : Config) (started : Nat) : Bool :=
  !config.shortages.contains started

/-- The byte that is written for a word, if the policy allows one. -/
def OutputPolicy.byte? (policy : OutputPolicy) (word : Word) : Option UInt8 :=
  match policy with
  | .truncate => some word.toUInt8
  | .reject => if word.toNat < 256 then some word.toUInt8 else none

theorem OutputPolicy.byte?_eq_some_iff {policy : OutputPolicy} {word : Word} {byte : UInt8} :
    policy.byte? word = some byte ↔
      (word.toNat < 256 ∨ policy = .truncate) ∧ byte = word.toUInt8 := by
  cases policy <;> simp [byte?, eq_comm]

end UniversalMachine
