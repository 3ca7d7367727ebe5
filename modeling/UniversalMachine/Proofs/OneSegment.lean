import UniversalMachine.Store

/-!
# One segment among the others

Requests that name another segment do not look at the words of this one. They are answered in the
same way whatever these words are, and leave them as they are.
-/

namespace UniversalMachine

namespace Store

/-- The store with other words in one segment. -/
def withSegment (store : Store) (handle : Handle) (words : Segment) : Store :=
  ⟨store.table.setIfInBounds handle.index (some words), store.reusable⟩

theorem setIfInBounds_push {α : Type} {entries : Array α} {i : Nat} (inside : i < entries.size)
    (entry last : α) :
    (entries.push last).setIfInBounds i entry = (entries.setIfInBounds i entry).push last := by
  have still_inside : i < (entries.push last).size := by
    rw [Array.size_push]
    exact Nat.lt_succ_of_lt inside
  rw [Array.setIfInBounds_def, dif_pos still_inside, Array.set_push, dif_pos inside,
    Array.setIfInBounds_def, dif_pos inside]

theorem setIfInBounds_push_size {α : Type} (entries : Array α) (entry last : α) :
    (entries.push last).setIfInBounds entries.size entry = entries.push entry := by
  have inside : entries.size < (entries.push last).size := by
    rw [Array.size_push]
    exact Nat.lt_succ_self _
  rw [Array.setIfInBounds_def, dif_pos inside, Array.set_push, dif_neg (Nat.lt_irrefl _)]

variable {store : Store} {handle other : Handle} {words old : Segment}

theorem find?_withSegment (inside : handle.index < store.table.size) (words : Segment) :
    (store.withSegment handle words).find? handle = some words :=
  (find?_setIfInBounds inside (some words) handle).trans (if_pos rfl)

theorem find?_withSegment_of_ne (different : other ≠ handle) :
    (store.withSegment handle words).find? other = store.find? other := by
  have elsewhere : handle.index ≠ other.index := fun same =>
    different (Handle.index_inj.mp same).symm
  simp only [find?, withSegment, Array.getElem?_setIfInBounds, if_neg elsewhere]

/-! ## Requests that name another segment -/

section Elsewhere

variable (different : other ≠ handle)
include different

theorem segment_withSegment :
    (store.withSegment handle words).segment other = store.segment other := by
  rw [segment, segment, find?_withSegment_of_ne different]

theorem read_withSegment (offset : Word) :
    (store.withSegment handle words).read other offset = store.read other offset := by
  rw [read, read, segment_withSegment different]

theorem setIfInBounds_withSegment (entry : Option Segment) :
    (store.withSegment handle words).table.setIfInBounds other.index entry =
      (store.table.setIfInBounds other.index entry).setIfInBounds handle.index (some words) :=
  Array.setIfInBounds_comm _ _ fun same => different (Handle.index_inj.mp same).symm

theorem write_withSegment (offset word : Word) :
    (store.withSegment handle words).write other offset word =
      (store.write other offset word).map fun store => store.withSegment handle words := by
  have same : (store.withSegment handle words).find? other = store.find? other :=
    find?_withSegment_of_ne different
  cases found : store.find? other with
  | none =>
      rw [write_of_unmapped found, write_of_unmapped (same.trans found)]
      rfl
  | some cells =>
      rw [write_of_find? found, write_of_find? (same.trans found),
        setIfInBounds_withSegment different]
      split <;> rfl

theorem free_withSegment :
    (store.withSegment handle words).free other =
      (store.free other).map fun store => store.withSegment handle words := by
  have same : (store.withSegment handle words).find? other = store.find? other :=
    find?_withSegment_of_ne different
  by_cases program : other = .program
  · rw [free, free, if_pos program, if_pos program]
    rfl
  · cases found : store.find? other with
    | none =>
        rw [free_of_unmapped program found, free_of_unmapped program (same.trans found)]
        rfl
    | some cells =>
        rw [free_of_find? program found, free_of_find? program (same.trans found),
          setIfInBounds_withSegment different]
        rfl

/-- What is installed takes the place of the program alone. -/
theorem install_withSegment (elsewhere : handle ≠ .program) :
    (store.withSegment handle words).install other =
      (store.install other).map fun store => store.withSegment handle words := by
  have same : (store.withSegment handle words).find? other = store.find? other :=
    find?_withSegment_of_ne different
  cases found : store.find? other with
  | none =>
      rw [install_of_unmapped found, install_of_unmapped (same.trans found)]
      rfl
  | some cells =>
      by_cases program : other = .program
      · rw [program] at found same ⊢
        rw [install, install, segment_of_find? found, segment_of_find? (same.trans found)]
        rfl
      · have beside : handle.index ≠ 0 := fun same => elsewhere (Handle.index_inj.mp same)
        rw [install_of_other program found, install_of_other program (same.trans found)]
        simp only [withSegment, Except.map, Array.setIfInBounds_comm _ _ beside]

end Elsewhere

/-- A new segment takes the place of a mapped one only if the handle of that one waits to be used
again. -/
theorem allocate_withSegment (inside : handle.index < store.table.size)
    (waits : store.reusable.head? ≠ some handle) (length : Nat) (memory : Bool) :
    (store.withSegment handle words).allocate length memory =
      (store.allocate length memory).map fun (fresh, store) =>
        (fresh, store.withSegment handle words) := by
  cases memory with
  | false => rfl
  | true =>
      cases stack : store.reusable with
      | cons fresh rest =>
          have different : fresh ≠ handle := by
            rintro rfl
            exact waits (by rw [stack]; rfl)
          have stack_too : (store.withSegment handle words).reusable = fresh :: rest := stack
          rw [allocate_of_stack stack, allocate_of_stack stack_too,
            setIfInBounds_withSegment different]
          rfl
      | nil =>
          have stack_too : (store.withSegment handle words).reusable = [] := stack
          have size : (store.withSegment handle words).table.size = store.table.size :=
            Array.size_setIfInBounds
          rw [allocate_of_no_stack stack, allocate_of_no_stack stack_too, size]
          split
          · simp only [withSegment, Except.map, setIfInBounds_push inside]
          · rfl

/-- Otherwise the segment keeps its words. -/
theorem find?_allocate_of_ne {length : Nat} {memory : Bool} {fresh : Handle} {next : Store}
    (waits : store.reusable.head? ≠ some handle) (found : store.find? handle = some words)
    (allocated : store.allocate length memory = .ok (fresh, next)) :
    next.find? handle = some words := by
  obtain ⟨rest, stack, rfl⟩ | ⟨-, -, -, rfl⟩ := allocate_cases allocated
  · have different : handle ≠ fresh := by
      rintro rfl
      exact waits (by rw [stack]; rfl)
    rw [← found]
    exact find?_withSegment_of_ne different
  · have inside := index_lt_of_find? found
    rw [find?, Array.getElem?_push, if_neg (Nat.ne_of_lt inside)]
    exact found

/-! ## Requests that name the segment -/

/-- A request that puts something else in place of the words does not look at them. -/
theorem allocate_withSegment_of_stack (waits : store.reusable.head? = some handle) (length : Nat)
    (memory : Bool) :
    (store.withSegment handle words).allocate length memory = store.allocate length memory := by
  obtain ⟨rest, stack⟩ : ∃ rest, store.reusable = handle :: rest :=
    List.head?_eq_some_iff.mp waits
  have stack_too : (store.withSegment handle words).reusable = handle :: rest := stack
  cases memory with
  | false => rfl
  | true =>
      rw [allocate_of_stack stack, allocate_of_stack stack_too, withSegment,
        Array.setIfInBounds_setIfInBounds]

theorem free_withSegment_self (found : store.find? handle = some old) :
    (store.withSegment handle words).free handle = store.free handle := by
  by_cases program : handle = .program
  · rw [free, free, if_pos program, if_pos program]
  · have found_too := find?_withSegment (index_lt_of_find? found) words
    rw [free_of_find? program found, free_of_find? program found_too, withSegment,
      Array.setIfInBounds_setIfInBounds]

/-- A word is written at an offset whatever the words are, if there are as many. -/
theorem write_withSegment_self (found : store.find? handle = some old)
    (size : words.size = old.size) (offset word : Word) :
    (store.withSegment handle words).write handle offset word =
      (store.write handle offset word).map fun store =>
        store.withSegment handle (words.setIfInBounds offset.toNat word) := by
  have found_too := find?_withSegment (index_lt_of_find? found) words
  rw [write_of_find? found, write_of_find? found_too, size]
  split
  · simp only [withSegment, Except.map, Array.setIfInBounds_setIfInBounds]
  · rfl

end Store

end UniversalMachine
