import UniversalMachine.Proofs.InstructionWord
import UniversalMachine.Proofs.Step
import Mathlib.Data.Set.List

/-!
# Listings

A program can be kept as a list of instructions. An interpreter of such a list does the steps
of a machine, but it never looks at words, except for those that the program itself reads from
where it stands. Whatever is in the place of the program in its store is not looked at either.
-/

namespace UniversalMachine

/-- The word that encodes an instruction decodes to it. -/
theorem Instr.decode_of_encode_rename {instruction : Instruction} {word : Word}
    (encoded : (instruction.rename Fin.val).encode = .ok word) :
    decode word = .ok instruction := by
  obtain ⟨decoded, same_word, same⟩ := decode_of_encode encoded
  rw [same_word, rename_injective Fin.val_injective same]

/-- A program as a list of instructions. -/
abbrev Listing := List Instruction

namespace Listing

/-! ## The interpreter -/

/-- The word at an offset of the program is the one that encodes the instruction there. -/
def cell (listing : Listing) (offset : Word) : Except Fault Word :=
  match listing[offset.toNat]? with
  | some instruction => (instruction.rename Fin.val).encode.mapError .overflow
  | none => .error (.offsetOutOfBounds .program offset listing.length)

def read (listing : Listing) (store : Store) (handle : Handle) (offset : Word) :
    Except Fault Word :=
  if handle = .program then listing.cell offset else store.read handle offset

/-- What is written into the program is lost. -/
def write (listing : Listing) (store : Store) (handle : Handle) (offset word : Word) :
    Except Fault Store :=
  if handle = .program then
    if offset.toNat < listing.length then .ok store
    else .error (.offsetOutOfBounds .program offset listing.length)
  else store.write handle offset word

/-- Executes an instruction like a machine, with the list in place of the program in the store. -/
def execute (listing : Listing) (machine : Machine) :
    Instruction → Except Fault Next × Machine
  | .load out seg offset =>
    match listing.read machine.store (machine.handle seg) (machine.word offset) with
    | .ok word => (.ok .advance, machine.put out word)
    | .error fault => (.error fault, machine)
  | .store seg offset val =>
    machine.takeStore.2.resume
      (listing.write machine.store (machine.handle seg) (machine.word offset) (machine.word val))
  | instruction => machine.execute instruction

/-- The instruction at the program counter. -/
def fetch (listing : Listing) (machine : Machine) : Except Fault Instruction :=
  match listing[machine.pc.toNat]? with
  | some instruction => .ok instruction
  | none => .error (.pcOutOfBounds machine.pc listing.length)

/-- The instruction that the next step executes, if the step limit leaves one. -/
def upcoming (listing : Listing) (machine : Machine) : Except Fault Instruction :=
  match machine.config.stepLimit with
  | none => listing.fetch machine
  | some limit =>
    if limit ≤ machine.profile.steps then .error (.stepLimitExceeded limit)
    else listing.fetch machine

/-- Executes the instruction at the program counter. -/
def step (listing : Listing) (machine : Machine) : Except Fault Status × Machine :=
  if machine.status ≠ .running then (.ok machine.status, machine)
  else
    match listing.upcoming machine with
    | .error fault => (.error fault, machine.stop .failed)
    | .ok instruction =>
      match listing.execute (machine.enter instruction) instruction with
      | (.ok next, machine) => machine.settle next
      | (.error fault, machine) => (.error fault, machine.stop .failed)

/-- The interpreter after a number of steps. -/
def stepped (listing : Listing) (machine : Machine) : Nat → Machine
  | 0 => machine
  | count + 1 => (listing.step (listing.stepped machine count)).2

/-- What the interpreter answers to a step after a number of steps. -/
def answer (listing : Listing) (machine : Machine) (count : Nat) : Except Fault Status :=
  (listing.step (listing.stepped machine count)).1

section Steps

variable {listing : Listing} {machine after : Machine} {instruction : Instruction} {fault : Fault}

theorem step_of_stopped (stopped : machine.status ≠ .running) :
    listing.step machine = (.ok machine.status, machine) := by
  rw [step, if_pos stopped]

theorem step_of_refused (running : machine.status = .running)
    (refused : listing.upcoming machine = .error fault) :
    listing.step machine = (.error fault, machine.stop .failed) := by
  rw [step, if_neg (not_not_intro running), refused]

theorem step_of_executed {next : Next} (running : machine.status = .running)
    (upcoming : listing.upcoming machine = .ok instruction)
    (executed : listing.execute (machine.enter instruction) instruction = (.ok next, after)) :
    listing.step machine = after.settle next := by
  rw [step, if_neg (not_not_intro running), upcoming]
  simp only [executed]

theorem step_of_failed (running : machine.status = .running)
    (upcoming : listing.upcoming machine = .ok instruction)
    (failed : listing.execute (machine.enter instruction) instruction = (.error fault, after)) :
    listing.step machine = (.error fault, after.stop .failed) := by
  rw [step, if_neg (not_not_intro running), upcoming]
  simp only [failed]

end Steps

/-! ## The words of a listing -/

/-- The words encode the instructions, each the one at its position. -/
def Encodes (listing : Listing) (words : Segment) : Prop :=
  listing.map (fun instruction => (instruction.rename Fin.val).encode) = words.toList.map .ok

variable {listing : Listing} {words : Segment}

theorem Encodes.size_eq (encodes : listing.Encodes words) : words.size = listing.length := by
  have lengths := congrArg List.length encodes
  rw [List.length_map, List.length_map, Array.length_toList] at lengths
  exact lengths.symm

/-- There is an instruction where there is a word, and the word encodes it. -/
theorem Encodes.cases (encodes : listing.Encodes words) (i : Nat) :
    (listing[i]? = none ∧ words[i]? = none) ∨
      ∃ instruction word, listing[i]? = some instruction ∧ words[i]? = some word ∧
        (instruction.rename Fin.val).encode = .ok word := by
  have same := congrArg (fun results => results[i]?) encodes
  simp only [List.getElem?_map, Array.getElem?_toList] at same
  cases listed : listing[i]? with
  | none =>
      rw [listed, Option.map_none] at same
      exact .inl ⟨rfl, Option.map_eq_none_iff.mp same.symm⟩
  | some instruction =>
      rw [listed, Option.map_some] at same
      obtain ⟨word, cell, encoded⟩ := Option.map_eq_some_iff.mp same.symm
      exact .inr ⟨instruction, word, rfl, cell, encoded.symm⟩

/-- Instructions that can be encoded name only registers that exist. -/
theorem exists_encodes {source : List (Instr Nat)} {words : List Word}
    (assembled : source.map Instr.encode = words.map .ok) :
    ∃ listing : Listing, listing.map (Instr.rename Fin.val) = source ∧
      listing.Encodes words.toArray := by
  have named : source ∈ Set.range (List.map (Instr.rename (Fin.val : Register → Nat))) := by
    rw [Set.range_list_map]
    intro instr mem
    have encodable : instr.encode ∈ words.map Except.ok := by
      rw [← assembled]
      exact List.mem_map_of_mem mem
    obtain ⟨word, -, encoded⟩ := List.mem_map.mp encodable
    obtain ⟨instruction, -, same⟩ := Instr.decode_of_encode encoded.symm
    exact ⟨instruction, same⟩
  obtain ⟨listing, rfl⟩ := named
  refine ⟨listing, rfl, ?_⟩
  rw [List.map_map] at assembled
  exact assembled

end Listing

end UniversalMachine
