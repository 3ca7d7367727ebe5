import UniversalMachine.Proofs.LoadedMachine
import UniversalMachine.Proofs.OneSegment

/-!
# The program among the segments

Requests that name another segment do not look at the program: they are answered in the same
way whatever its words are, and leave these alone.
-/

namespace UniversalMachine

namespace Store

/-- The store with other words as its program. -/
def withProgram (store : Store) (words : Segment) : Store :=
  ⟨store.table.setIfInBounds 0 (some words), store.reusable⟩

variable {store : Store} {words : Segment} {handle : Handle}

theorem withProgram_eq (store : Store) (words : Segment) :
    store.withProgram words = store.withSegment .program words :=
  rfl

theorem size_withProgram : (store.withProgram words).table.size = store.table.size :=
  Array.size_setIfInBounds

theorem find?_withProgram (nonempty : 0 < store.table.size) (words : Segment) :
    (store.withProgram words).find? .program = some words := by
  have inside : Handle.program.index < store.table.size := nonempty
  rw [withProgram_eq, find?_withSegment inside]

theorem find?_withProgram_of_ne (other : handle ≠ .program) :
    (store.withProgram words).find? handle = store.find? handle := by
  rw [withProgram_eq, find?_withSegment_of_ne other]

/-- A store that a machine can run on has a place for the program. -/
theorem Runnable.nonempty (runnable : (store.withProgram words).Runnable) :
    0 < store.table.size := by
  obtain ⟨program, mapped⟩ := runnable.program
  have position := index_lt_of_find? mapped
  rw [size_withProgram] at position
  exact position

theorem read_withProgram (other : handle ≠ .program) (offset : Word) :
    (store.withProgram words).read handle offset = store.read handle offset := by
  rw [withProgram_eq, read_withSegment other]

theorem write_withProgram (other : handle ≠ .program) (offset word : Word) :
    (store.withProgram words).write handle offset word =
      (store.write handle offset word).map fun store => store.withProgram words := by
  simp only [withProgram_eq, write_withSegment other]

theorem free_withProgram (store : Store) (words : Segment) (handle : Handle) :
    (store.withProgram words).free handle =
      (store.free handle).map fun store => store.withProgram words := by
  by_cases program : handle = .program
  · rw [free, free, if_pos program, if_pos program]
    rfl
  · simp only [withProgram_eq, free_withSegment program]

/-- A new segment does not take the place of the program. -/
theorem allocate_withProgram (runnable : (store.withProgram words).Runnable) (length : Nat)
    (memory : Bool) :
    (store.withProgram words).allocate length memory =
      (store.allocate length memory).map fun (handle, store) =>
        (handle, store.withProgram words) := by
  have inside : Handle.program.index < store.table.size := runnable.nonempty
  have waits : store.reusable.head? ≠ some .program := fun first =>
    runnable.wellFormed.program_not_mem (List.mem_of_mem_head? first)
  simp only [withProgram_eq, allocate_withSegment inside waits]

end Store

end UniversalMachine
