import UniversalMachine.Proofs.StoreInvariant

/-!
# When a request to the store is refused

Every refusal is for one of a few reasons: the handle names nothing, the offset is past the end
of the segment, the program is to be unmapped, or there is no handle or no memory left for a new
segment. In any other case a request is answered.
-/

namespace UniversalMachine

namespace Store

/-- A cell cannot be reached, for the first of two reasons that applies. -/
inductive CellFails (store : Store) (handle : Handle) (offset : Word) : Fault → Prop where
  | unmapped (missing : store.find? handle = none) :
      CellFails store handle offset (.unmappedSegment handle)
  | outside {words : Segment} (found : store.find? handle = some words)
      (past : words.size ≤ offset.toNat) :
      CellFails store handle offset (.offsetOutOfBounds handle offset words.size)

variable {store : Store} {handle : Handle} {offset word : Word} {fault : Fault}

theorem cellFails_of_unmapped (missing : store.find? handle = none) :
    store.CellFails handle offset fault ↔ fault = .unmappedSegment handle := by
  constructor
  · intro fails
    cases fails with
    | unmapped => rfl
    | outside found =>
        rw [missing] at found
        cases found
  · rintro rfl
    exact .unmapped missing

theorem cellFails_of_find? {words : Segment} (found : store.find? handle = some words) :
    store.CellFails handle offset fault ↔
      words.size ≤ offset.toNat ∧ fault = .offsetOutOfBounds handle offset words.size := by
  constructor
  · intro fails
    cases fails with
    | unmapped missing =>
        rw [missing] at found
        cases found
    | outside mapped past =>
        rw [mapped] at found
        cases found
        exact ⟨past, rfl⟩
  · rintro ⟨past, rfl⟩
    exact .outside found past

theorem length_eq_error_iff :
    store.length handle = .error fault ↔
      store.find? handle = none ∧ fault = .unmappedSegment handle := by
  cases found : store.find? handle with
  | none =>
      rw [length_of_unmapped found]
      simp [eq_comm]
  | some words => simp [length_of_find? found]

/-- The two reasons with the length that a request for it gives. -/
theorem cellFails_iff :
    store.CellFails handle offset fault ↔
      store.find? handle = none ∧ fault = .unmappedSegment handle ∨
      (store.find? handle).isSome ∧ ∃ length, store.length handle = .ok length ∧
        length ≤ offset.toNat ∧ fault = .offsetOutOfBounds handle offset length := by
  cases found : store.find? handle with
  | none => simp [cellFails_of_unmapped found]
  | some words => simp [cellFails_of_find? found, length_of_find? found]

theorem read_eq_error_iff :
    store.read handle offset = .error fault ↔ store.CellFails handle offset fault := by
  cases found : store.find? handle with
  | none =>
      rw [cellFails_of_unmapped found, read, segment_of_unmapped found]
      simp [eq_comm]
  | some words =>
      rw [cellFails_of_find? found, read, segment_of_find? found]
      by_cases inside : offset.toNat < words.size
      · simp [inside, Nat.not_le.mpr inside]
      · simp [inside, Nat.le_of_not_lt inside, eq_comm]

theorem write_eq_error_iff :
    store.write handle offset word = .error fault ↔ store.CellFails handle offset fault := by
  cases found : store.find? handle with
  | none =>
      rw [cellFails_of_unmapped found, write, length_of_unmapped found]
      simp [eq_comm]
  | some words =>
      rw [cellFails_of_find? found, write, length_of_find? found]
      by_cases inside : offset.toNat < words.size
      · simp [inside, Nat.not_le.mpr inside]
      · simp [inside, Nat.le_of_not_lt inside, eq_comm]

/-- Unmapping the program is refused whether or not it is mapped. -/
theorem free_eq_error_iff :
    store.free handle = .error fault ↔
      (handle = .program ∧ fault = .unmapSegmentZero) ∨
      (handle ≠ .program ∧ store.find? handle = none ∧ fault = .unmappedSegment handle) := by
  unfold free
  by_cases program : handle = .program
  · simp [program, eq_comm]
  · cases store.find? handle <;> simp [program, eq_comm]

/-- If there is something to install, there is a program to replace. -/
theorem install_eq_error_iff :
    store.install handle = .error fault ↔
      store.find? handle = none ∧ fault = .unmappedSegment handle := by
  cases found : store.find? handle with
  | none =>
      rw [install, segment_of_unmapped found]
      simp [eq_comm]
  | some words =>
      obtain ⟨next, installed⟩ := install_of_find? found
      simp [installed]

/-- There is no handle left when each of them is mapped. -/
theorem WellFormed.full_iff (wf : store.WellFormed) :
    (store.reusable = [] ∧ handleCount ≤ store.table.size) ↔
      ∀ handle, ∃ words, store.find? handle = some words := by
  constructor
  · rintro ⟨empty, full⟩ handle
    have inside : handle.index < store.table.size := Nat.lt_of_lt_of_le handle.index_lt full
    have no_gap := wf.mem_reusable_iff handle
    rw [empty, Array.getElem?_eq_getElem inside] at no_gap
    cases entry : store.table[handle.index] with
    | none => simp [entry] at no_gap
    | some words =>
        refine ⟨words, find?_eq_some_iff.mpr ?_⟩
        rw [Array.getElem?_eq_getElem inside, entry]
  · intro mapped
    constructor
    · apply List.eq_nil_iff_forall_not_mem.mpr
      intro handle reused
      obtain ⟨words, found⟩ := mapped handle
      rw [wf.find?_reusable reused] at found
      cases found
    · -- The table reaches as far as the last handle, since that one is mapped as well.
      let last : Handle := .ofIndex (handleCount - 1)
      obtain ⟨words, found⟩ := mapped last
      have index : last.index = handleCount - 1 := Handle.index_ofIndex (by decide)
      have inside := index_lt_of_find? found
      rw [index] at inside
      omega

/-- A segment cannot be mapped if there is no memory for it, or if every handle is mapped. -/
theorem WellFormed.allocate_eq_error_iff (wf : store.WellFormed) {length : Nat} {memory : Bool} :
    store.allocate length memory = .error fault ↔
      (memory = false ∧ fault = .allocationFailed length) ∨
      (memory = true ∧ (∀ handle, ∃ words, store.find? handle = some words) ∧
        fault = .handlesExhausted) := by
  rw [← wf.full_iff]
  cases memory with
  | false =>
      rw [allocate_of_no_memory]
      simp [eq_comm]
  | true =>
      cases stack : store.reusable with
      | cons reused rest =>
          rw [allocate_of_stack stack]
          simp
      | nil =>
          rw [allocate_of_no_stack stack]
          by_cases room : store.table.size < handleCount
          · simp [room, Nat.not_le.mpr room]
          · simp [room, Nat.le_of_not_lt room, eq_comm]

end Store

end UniversalMachine
