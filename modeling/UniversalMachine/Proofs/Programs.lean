import UniversalMachine.Proofs.Listing

/-!
# Two programs

One program echoes its input, as many bytes as it has rounds written out. The other one has a loop:
it counts a register down to zero by adding the greatest word, and writes a word that counts up from
`A`. What either of them executes is a few instructions repeated.
-/

namespace UniversalMachine

/-! ## Repeated instructions -/

/-- The instructions so many times over. -/
def repeated (count : Nat) (block : List Instruction) : List Instruction :=
  (List.replicate count block).flatten

section Repeated

variable (block : List Instruction)

theorem repeated_add (first more : Nat) :
    repeated (first + more) block = repeated first block ++ repeated more block := by
  rw [repeated, ← List.replicate_append_replicate, List.flatten_append, repeated, repeated]

theorem repeated_one : repeated 1 block = block :=
  List.flatten_singleton

theorem repeated_succ (count : Nat) :
    repeated (count + 1) block = block ++ repeated count block := by
  rw [Nat.add_comm, repeated_add, repeated_one]

theorem length_repeated (count : Nat) : (repeated count block).length = count * block.length := by
  induction count with
  | zero => exact (Nat.zero_mul _).symm
  | succ count ih =>
      rw [repeated_add, repeated_one, List.length_append, ih, Nat.succ_mul]

theorem count_repeated (op : Opcode) (count : Nat) :
    ((repeated count block).map Instr.opcode).count op =
      count * (block.map Instr.opcode).count op := by
  induction count with
  | zero => exact (Nat.zero_mul _).symm
  | succ count ih =>
      rw [repeated_add, repeated_one, List.map_append, List.count_append, ih, Nat.succ_mul]

end Repeated

/-! ## The echo program -/

def echoRound : List Instruction :=
  [.input 1, .output 1]

/-- So many rounds, one more read and a halt. -/
def echo (count : Nat) : Listing :=
  repeated count echoRound ++ [.input 2, .halt]

theorem length_echo (count : Nat) : (echo count).length = 2 * count + 2 := by
  rw [echo, List.length_append, length_repeated, Nat.mul_comm]
  rfl

theorem loadImmediate_notMem_echo (count : Nat) (out : Register) (value : Word) :
    .loadImmediate out value ∉ echo count := by
  simp [echo, echoRound, repeated]

/-! ## The counted loop -/

def loopSetup (count : Nat) : List Instruction :=
  [.loadImmediate 1 (.ofNat count), .loadImmediate 2 65, .nand 3 0 0, .loadImmediate 5 1,
    .loadImmediate 4 5]

/-- What a round does before it jumps. It moves the start of the loop over the address behind the
loop, unless nothing is left to count. -/
def loopBody : List Instruction :=
  [.output 2, .add 2 2 5, .add 1 1 3, .loadImmediate 7 11, .conditionalMove 7 4 1]

def loopRound : List Instruction :=
  loopBody ++ [.loadProgram 0 7]

def countedLoop (count : Nat) : Listing :=
  loopSetup count ++ loopRound ++ [.halt]

theorem length_countedLoop (count : Nat) : (countedLoop count).length = 12 :=
  rfl

/-- The count is the only value that may be too great for an immediate. -/
theorem values_fit {count : Nat} (short : count < 2 ^ 25) (out : Register) (value : Word)
    (mem : .loadImmediate out value ∈ countedLoop count) : value.toNat < 2 ^ 25 := by
  have counted : (UInt32.ofNat count).toNat = count :=
    UInt32.toNat_ofNat_of_lt' (Nat.lt_trans short (by decide))
  have listed : (out = 1 ∧ value = .ofNat count) ∨ (out = 2 ∧ value = 65) ∨
      (out = 5 ∧ value = 1) ∨ (out = 4 ∧ value = 5) ∨ out = 7 ∧ value = 11 := by
    simpa [countedLoop, loopSetup, loopRound, loopBody] using mem
  rcases listed with ⟨-, rfl⟩ | ⟨-, rfl⟩ | ⟨-, rfl⟩ | ⟨-, rfl⟩ | ⟨-, rfl⟩
  · rwa [counted]
  all_goals decide

/-- What is executed up to some instruction in the loop or behind it. -/
def looped (count rounds : Nat) (last : Instruction) : List Instruction :=
  loopSetup count ++ repeated rounds loopRound ++ [last]

theorem length_looped (count rounds : Nat) (last : Instruction) :
    (looped count rounds last).length = 5 + 6 * rounds + 1 := by
  rw [looped, List.length_append, List.length_append, length_repeated, Nat.mul_comm]
  rfl

/-- Each round jumps and writes once, and nothing else does. -/
theorem count_looped (count rounds : Nat) {op : Opcode} (once : op = .loadProgram ∨ op = .output) :
    ((looped count rounds .halt).map Instr.opcode).count op = rounds := by
  have before : ((loopSetup count).map Instr.opcode).count op = 0 := by
    rcases once with rfl | rfl <;> rfl
  have round : (loopRound.map Instr.opcode).count op = 1 := by
    rcases once with rfl | rfl <;> rfl
  have behind : (([.halt] : List Instruction).map Instr.opcode).count op = 0 := by
    rcases once with rfl | rfl <;> rfl
  rw [looped, List.map_append, List.map_append, List.count_append, List.count_append, before,
    behind, count_repeated, round, Nat.zero_add, Nat.add_zero, Nat.mul_one]

end UniversalMachine
