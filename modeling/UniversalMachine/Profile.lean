import UniversalMachine.Opcode

/-!
# Execution profiles

A profile counts how often each operation was executed.
-/

namespace UniversalMachine

/-- How often each operation was executed. -/
structure Profile where
  /-- The counts in the order of the operation numbers. -/
  counts : Vector Nat 14
deriving DecidableEq

namespace Profile

/-- Nothing has been executed. -/
def empty : Profile :=
  ⟨Vector.replicate 14 0⟩

def count (profile : Profile) (op : Opcode) : Nat :=
  profile.counts[op.index]

/-- Counts one more execution of an operation. -/
def record (profile : Profile) (op : Opcode) : Profile :=
  ⟨profile.counts.set op.number (profile.count op + 1) op.number_lt⟩

/-- The executions of the listed operations taken together. -/
def total (profile : Profile) : List Opcode → Nat
  | [] => 0
  | op :: rest => profile.count op + profile.total rest

/-- The number of instructions executed. -/
def steps (profile : Profile) : Nat :=
  profile.total Opcode.all

/-- The operations that were executed with their counts, the most frequent first. Equally
frequent ones stay in the order of their numbers. -/
def hottest (profile : Profile) : List (Opcode × Nat) :=
  let executed := (Opcode.all.map fun op => (op, profile.count op)).filter fun entry => 0 < entry.2
  executed.mergeSort fun a b => b.2 ≤ a.2

@[simp] theorem count_empty (op : Opcode) : empty.count op = 0 := by
  cases op <;> rfl

theorem count_record (profile : Profile) (recorded op : Opcode) :
    (profile.record recorded).count op =
      if op = recorded then profile.count recorded + 1 else profile.count op := by
  have distinct : recorded.number = op.number ↔ op = recorded := by
    cases recorded <;> cases op <;> decide
  simp only [count, record, Fin.getElem_fin, Opcode.index, Vector.getElem_set, distinct]

@[simp] theorem steps_empty : empty.steps = 0 := by
  decide

/-- Over any list of operations, recording one adds as often as it occurs in the list. -/
theorem total_record (profile : Profile) (recorded : Opcode) (ops : List Opcode) :
    (profile.record recorded).total ops = profile.total ops + ops.count recorded := by
  induction ops with
  | nil => rfl
  | cons op rest ih =>
      simp only [total, List.count_cons, ih, count_record]
      by_cases same : op = recorded <;> simp [same] <;> omega

/-- Each recorded instruction adds one to the number of steps. -/
@[simp] theorem steps_record (profile : Profile) (recorded : Opcode) :
    (profile.record recorded).steps = profile.steps + 1 := by
  have once : Opcode.all.count recorded = 1 := by
    cases recorded <;> decide
  rw [steps, total_record, once, steps]

end Profile

end UniversalMachine
