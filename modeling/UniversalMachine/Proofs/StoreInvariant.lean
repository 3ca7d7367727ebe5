import UniversalMachine.Store.Call
import Mathlib.Data.List.Nodup

/-!
# The invariant of the store

The gaps of the table are exactly the handles on the stack, each of them once. Every call
keeps this, so the store that any history of calls leads to has it.
-/

namespace UniversalMachine

namespace Store

/-- The table and the stack of unmapped handles speak of the same gaps. The program is mapped
once anything is, and every position of the table has a handle. -/
structure WellFormed (store : Store) : Prop where
  nodup : store.reusable.Nodup
  mem_reusable_iff : ∀ handle, handle ∈ store.reusable ↔ store.table[handle.index]? = some none
  program_mapped : store.table = #[] ∨ (store.find? .program).isSome
  liveCount_add : store.liveCount + store.reusable.length = store.table.size
  size_le : store.table.size ≤ handleCount

theorem wellFormed_empty : (∅ : Store).WellFormed where
  nodup := List.nodup_nil
  mem_reusable_iff handle := by simp [EmptyCollection.emptyCollection]
  program_mapped := .inl rfl
  liveCount_add := rfl
  size_le := by decide

/-- Replacing an entry changes the number of mapped segments by the difference of the two. -/
theorem countP_setIfInBounds {table : Array (Option Segment)} {i : Nat} {old : Option Segment}
    (entry : table[i]? = some old) (new : Option Segment) :
    (table.setIfInBounds i new).countP Option.isSome + old.isSome.toNat =
      table.countP Option.isSome + new.isSome.toNat := by
  obtain ⟨inside, rfl⟩ := Array.getElem?_eq_some_iff.mp entry
  have counted := Array.boole_getElem_le_countP (p := Option.isSome) inside
  have changed := Array.countP_set (p := Option.isSome) (a := new) inside
  rw [Array.setIfInBounds_def, dif_pos inside, changed]
  generalize table[i] = old at counted
  cases old <;> cases new <;>
    simp only [Option.isSome_some, Option.isSome_none, Bool.false_eq_true, if_true, if_false,
      Bool.toNat_true, Bool.toNat_false] at counted ⊢ <;> omega

namespace WellFormed

variable {store next : Store} {handle : Handle}

theorem program_not_mem (wf : store.WellFormed) : .program ∉ store.reusable := by
  intro reused
  have gap := (wf.mem_reusable_iff .program).mp reused
  rcases wf.program_mapped with empty | mapped
  · simp [empty] at gap
  · rw [find?, gap] at mapped
    cases mapped

theorem index_lt (wf : store.WellFormed) (reused : handle ∈ store.reusable) :
    handle.index < store.table.size :=
  (Array.getElem?_eq_some_iff.mp ((wf.mem_reusable_iff handle).mp reused)).1

/-- A handle on the stack names nothing. -/
theorem find?_reusable (wf : store.WellFormed) (reused : handle ∈ store.reusable) :
    store.find? handle = none := by
  rw [find?, (wf.mem_reusable_iff handle).mp reused]
  rfl

/-- If anything is mapped, the program is. -/
theorem program_of_find? (wf : store.WellFormed) {words : Segment}
    (found : store.find? handle = some words) : ∃ program, store.find? .program = some program :=
  Option.isSome_iff_exists.mp (wf.program_mapped.resolve_left (nonempty_of_find? found))

/-- Other words may take the place of the words of a mapped segment. -/
theorem overwrite (wf : store.WellFormed) {old : Segment} (found : store.find? handle = some old)
    (new : Segment) :
    WellFormed ⟨store.table.setIfInBounds handle.index (some new), store.reusable⟩ := by
  have entry := find?_eq_some_iff.mp found
  have inside := index_lt_of_find? found
  constructor
  · exact wf.nodup
  · intro other
    rw [wf.mem_reusable_iff, Array.getElem?_setIfInBounds]
    by_cases same : handle.index = other.index
    · rw [if_pos same, if_pos (same ▸ inside), ← same, entry]
      simp
    · rw [if_neg same]
  · right
    rw [find?_setIfInBounds inside]
    obtain ⟨program, mapped⟩ := wf.program_of_find? found
    split
    · rfl
    · exact Option.isSome_of_mem mapped
  · have counted := countP_setIfInBounds entry (some new)
    have all := wf.liveCount_add
    simp only [liveCount, Option.isSome_some, Bool.toNat_true, Array.size_setIfInBounds] at *
    omega
  · simpa using wf.size_le

theorem write (wf : store.WellFormed) {offset word : Word}
    (written : store.write handle offset word = .ok next) : next.WellFormed := by
  obtain ⟨words, found, -, rfl⟩ := write_cases written
  exact wf.overwrite found _

theorem install (wf : store.WellFormed) (installed : store.install handle = .ok next) :
    next.WellFormed := by
  obtain ⟨words, found, ⟨-, rfl⟩ | ⟨-, rfl⟩⟩ := install_cases installed
  · exact wf
  · obtain ⟨program, mapped⟩ := wf.program_of_find? found
    exact wf.overwrite mapped words

theorem free (wf : store.WellFormed) (freed : store.free handle = .ok next) :
    next.WellFormed := by
  obtain ⟨other, ⟨words, found⟩, rfl⟩ := free_cases freed
  have entry := find?_eq_some_iff.mp found
  have inside := index_lt_of_find? found
  constructor
  · refine List.nodup_cons.mpr ⟨?_, wf.nodup⟩
    intro reused
    simp [wf.find?_reusable reused] at found
  · intro g
    rw [List.mem_cons, wf.mem_reusable_iff, Array.getElem?_setIfInBounds, ← Handle.index_inj]
    by_cases same : handle.index = g.index
    · simp [same, same ▸ inside]
    · simp [same, Ne.symm same]
  · right
    rw [find?_setIfInBounds inside, if_neg (Ne.symm other)]
    obtain ⟨program, mapped⟩ := wf.program_of_find? found
    exact Option.isSome_of_mem mapped
  · have counted := countP_setIfInBounds entry none
    have all := wf.liveCount_add
    simp only [liveCount, Option.isSome_some, Option.isSome_none, Bool.toNat_true,
      Bool.toNat_false, Array.size_setIfInBounds, List.length_cons] at *
    omega
  · simpa using wf.size_le

/-- Mapping takes a gap away, or adds an entry at the end if there is no gap. -/
theorem allocate (wf : store.WellFormed) {length : Nat} {memory : Bool}
    (allocated : store.allocate length memory = .ok (handle, next)) : next.WellFormed := by
  have mapped := find?_allocate allocated fun reused h => wf.index_lt h
  have program : (next.find? .program).isSome := by
    rw [mapped]
    split
    · rfl
    · next other =>
        apply wf.program_mapped.resolve_left
        intro empty
        obtain ⟨rest, stack, -⟩ | ⟨-, -, rfl, -⟩ := allocate_cases allocated
        · have reused : handle ∈ store.reusable := by simp [stack]
          simpa [empty] using wf.index_lt reused
        · simp [empty, Handle.ofIndex, Handle.program] at other
  obtain ⟨rest, stack, rfl⟩ | ⟨stack, room, rfl, rfl⟩ := allocate_cases allocated
  · have reused : handle ∈ store.reusable := by simp [stack]
    have gap := (wf.mem_reusable_iff handle).mp reused
    have fresh : handle ∉ rest ∧ rest.Nodup := List.nodup_cons.mp (stack ▸ wf.nodup)
    constructor
    · exact fresh.2
    · intro g
      have listed := wf.mem_reusable_iff g
      rw [stack, List.mem_cons] at listed
      rw [Array.getElem?_setIfInBounds]
      by_cases same : handle.index = g.index
      · have equal := Handle.index_inj.mp same
        subst equal
        simp [fresh.1, wf.index_lt reused]
      · have different : g ≠ handle := fun equal => same (equal ▸ rfl)
        simpa [same, different] using listed
    · exact .inr program
    · have counted := countP_setIfInBounds gap (some (Array.replicate length 0))
      have all := wf.liveCount_add
      simp only [liveCount, stack, Option.isSome_some, Option.isSome_none, Bool.toNat_true,
        Bool.toNat_false, Array.size_setIfInBounds, List.length_cons] at *
      omega
    · simpa using wf.size_le
  · constructor
    · exact List.nodup_nil
    · intro g
      have listed := wf.mem_reusable_iff g
      rw [stack] at listed
      rw [Array.getElem?_push]
      split
      · simp
      · exact listed
    · exact .inr program
    · have all := wf.liveCount_add
      simp only [liveCount, stack, Array.countP_push, Array.size_push, List.length_nil] at *
      simpa using all
    · simpa using Nat.succ_le_of_lt room

/-- A segment is mapped under a handle that named nothing. -/
theorem find?_allocated (wf : store.WellFormed) {length : Nat} {memory : Bool}
    (allocated : store.allocate length memory = .ok (handle, next)) :
    store.find? handle = none := by
  obtain ⟨rest, stack, -⟩ | ⟨-, room, rfl, -⟩ := allocate_cases allocated
  · exact wf.find?_reusable (by simp [stack])
  · simp [find?, Handle.index_ofIndex room]

/-- Whatever is asked of the store, its invariant is kept. -/
theorem perform (wf : store.WellFormed) (call : Call) : (store.perform call).2.WellFormed := by
  cases call with
  | allocate length memory =>
      rcases store.perform_allocate length memory with
        ⟨fault, refused⟩ | ⟨handle, next, allocated, done⟩
      · rwa [refused]
      · rw [done]
        exact wf.allocate allocated
  | free handle =>
      rcases store.perform_free handle with ⟨fault, refused⟩ | ⟨next, freed, done⟩
      · rwa [refused]
      · rw [done]
        exact wf.free freed
  | write handle offset word =>
      rcases store.perform_write handle offset word with ⟨fault, refused⟩ | ⟨next, written, done⟩
      · rwa [refused]
      · rw [done]
        exact wf.write written
  | install handle =>
      rcases store.perform_install handle with ⟨fault, refused⟩ | ⟨next, installed, done⟩
      · rwa [refused]
      · rw [done]
        exact wf.install installed
  | release => exact wellFormed_empty
  | read | length | segment | program | liveCount => exact wf

theorem after (wf : store.WellFormed) (history : List Call) :
    (store.after history).WellFormed := by
  induction history generalizing store with
  | nil => exact wf
  | cons call rest ih => exact ih (wf.perform call)

end WellFormed

/-- Every history of calls leads to a store with the invariant. -/
theorem wellFormed_after (history : List Call) : ((∅ : Store).after history).WellFormed :=
  wellFormed_empty.after history

/-- In every store that calls lead to, the stack lists the gaps of the table, each once, and the
program is not among them. So a handle from the stack has its place in the table, and that
place is empty; a segment is only ever mapped under a handle that names nothing, and what was
mapped stays as it was; and a mapped segment can be installed. -/
theorem stack_lists_gaps (history : List Call) :
    let store := (∅ : Store).after history
    store.reusable.Nodup ∧
    (∀ handle, handle ∈ store.reusable ↔ store.table[handle.index]? = some none) ∧
    .program ∉ store.reusable ∧
    (store.table = #[] ∨ (store.find? .program).isSome) ∧
    store.liveCount + store.reusable.length = store.table.size ∧
    (∀ handle rest, store.reusable = handle :: rest →
      ∃ inside : handle.index < store.table.size, store.table[handle.index] = none) ∧
    (∀ length memory handle next, store.allocate length memory = .ok (handle, next) →
      store.find? handle = none ∧
      ∀ other words, store.find? other = some words → next.find? other = some words) ∧
    (∀ handle words, store.segment handle = .ok words →
      store.table.isEmpty = false ∧ ∃ next, store.install handle = .ok next) := by
  intro store
  have wf : store.WellFormed := wellFormed_after history
  refine ⟨wf.nodup, wf.mem_reusable_iff, wf.program_not_mem, wf.program_mapped,
    wf.liveCount_add, ?_, ?_, ?_⟩
  · intro handle rest stack
    have reused : handle ∈ store.reusable := by simp [stack]
    exact Array.getElem?_eq_some_iff.mp ((wf.mem_reusable_iff handle).mp reused)
  · intro length memory handle next allocated
    have fresh := wf.find?_allocated allocated
    refine ⟨fresh, ?_⟩
    intro other words found
    have different : other ≠ handle := by
      rintro rfl
      simp [fresh] at found
    rw [find?_allocate allocated (fun reused h => wf.index_lt h), if_neg different, found]
  · intro handle words named
    have found := segment_eq_ok_iff.mp named
    exact ⟨by simpa using nonempty_of_find? found, install_of_find? found⟩

end Store

end UniversalMachine
