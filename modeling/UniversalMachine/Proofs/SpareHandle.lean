import UniversalMachine.Proofs.HandleReuse
import UniversalMachine.Proofs.OneSegment

/-!
# Mapping a segment and unmapping it again

Afterwards nobody can tell. If a handle waited to be used again the store is what it was. If none
did, the table has one more entry, which is a gap, and its handle waits below all others. It is
handed out just when the table would otherwise get that entry.
-/

namespace UniversalMachine

namespace Store

/-- The store with a gap at the end of the table, whose handle is used again after all others. -/
def withSpare (store : Store) : Store :=
  ⟨store.table.push none, store.reusable ++ [.ofIndex store.table.size]⟩

variable {store : Store} {handle : Handle}

/-! ## Requests that do not see the gap -/

@[simp] theorem find?_withSpare (store : Store) (handle : Handle) :
    store.withSpare.find? handle = store.find? handle := by
  simp only [find?, withSpare, Array.getElem?_push]
  split
  · next last =>
      rw [last, Array.getElem?_eq_none (Nat.le_refl _)]
      rfl
  · rfl

@[simp] theorem segment_withSpare (store : Store) (handle : Handle) :
    store.withSpare.segment handle = store.segment handle := by
  rw [segment, segment, find?_withSpare]

@[simp] theorem liveCount_withSpare (store : Store) :
    store.withSpare.liveCount = store.liveCount := by
  simp [liveCount, withSpare]

/-- Replacing an entry of the table leaves the gap where it is. -/
theorem setIfInBounds_withSpare {i : Nat} (inside : i < store.table.size)
    (entry : Option Segment) (reusable : List Handle) :
    withSpare ⟨store.table.setIfInBounds i entry, reusable⟩ =
      ⟨store.withSpare.table.setIfInBounds i entry,
        reusable ++ [.ofIndex store.table.size]⟩ := by
  simp only [withSpare, setIfInBounds_push inside, Array.size_setIfInBounds]

theorem write_withSpare (store : Store) (handle : Handle) (offset word : Word) :
    store.withSpare.write handle offset word = (store.write handle offset word).map withSpare := by
  cases found : store.find? handle with
  | none =>
      rw [write_of_unmapped found, write_of_unmapped ((find?_withSpare store handle).trans found)]
      rfl
  | some words =>
      rw [write_of_find? found, write_of_find? ((find?_withSpare store handle).trans found)]
      split
      · exact congrArg _ (setIfInBounds_withSpare (index_lt_of_find? found) _ _).symm
      · rfl

theorem free_withSpare (store : Store) (handle : Handle) :
    store.withSpare.free handle = (store.free handle).map withSpare := by
  by_cases program : handle = .program
  · rw [free, free, if_pos program, if_pos program]
    rfl
  · cases found : store.find? handle with
    | none =>
        rw [free_of_unmapped program found,
          free_of_unmapped program ((find?_withSpare store handle).trans found)]
        rfl
    | some words =>
        rw [free_of_find? program found,
          free_of_find? program ((find?_withSpare store handle).trans found)]
        have position := index_lt_of_find? found
        exact congrArg _ (setIfInBounds_withSpare position none (handle :: store.reusable)).symm

theorem install_withSpare (store : Store) (handle : Handle) :
    store.withSpare.install handle = (store.install handle).map withSpare := by
  cases found : store.find? handle with
  | none =>
      rw [install_of_unmapped found,
        install_of_unmapped ((find?_withSpare store handle).trans found)]
      rfl
  | some words =>
      by_cases program : handle = .program
      · rw [install, install, segment_withSpare, segment_of_find? found]
        simp only [if_pos program]
        rfl
      · have nonempty : 0 < store.table.size := Nat.zero_lt_of_lt (index_lt_of_find? found)
        rw [install_of_other program found,
          install_of_other program ((find?_withSpare store handle).trans found)]
        exact congrArg _ (setIfInBounds_withSpare nonempty _ _).symm

/-! ## Mapping with and without the gap -/

/-- As long as other handles wait, the gap is left alone. -/
theorem allocate_withSpare_of_stack {rest : List Handle} (stack : store.reusable = handle :: rest)
    (inside : handle.index < store.table.size) (length : Nat) (memory : Bool) :
    store.withSpare.allocate length memory =
      (store.allocate length memory).map fun (fresh, store) => (fresh, store.withSpare) := by
  have stack_too : store.withSpare.reusable =
      handle :: (rest ++ [.ofIndex store.table.size]) := by
    rw [withSpare, stack, List.cons_append]
  cases memory with
  | false => rfl
  | true =>
      rw [allocate_of_stack stack, allocate_of_stack stack_too]
      simp only [Except.map, setIfInBounds_withSpare inside]

/-- If none waits, the gap is filled, and the entry is where it would have been added. -/
theorem allocate_withSpare_of_no_stack (stack : store.reusable = [])
    (room : store.table.size < handleCount) (length : Nat) :
    ∃ answer, store.allocate length true = .ok answer ∧
      store.withSpare.allocate length true = .ok answer := by
  have stack_too : store.withSpare.reusable = .ofIndex store.table.size :: [] := by
    rw [withSpare, stack, List.nil_append]
  refine ⟨_, (allocate_of_no_stack stack).trans (if_pos room), ?_⟩
  rw [allocate_of_stack stack_too, Handle.index_ofIndex room, withSpare,
    setIfInBounds_push_size]

/-! ## Calls with and without the gap -/

/-- A call is answered as it would be without the gap, which it leaves or fills. -/
theorem perform_withSpare (wf : store.WellFormed) (wf_spare : store.withSpare.WellFormed)
    (call : Call) :
    store.withSpare.perform call = store.perform call ∨
      store.withSpare.perform call =
        ((store.perform call).1, (store.perform call).2.withSpare) := by
  cases call with
  | allocate length memory =>
      have room : store.table.size < handleCount := by
        have larger := wf_spare.size_le
        rwa [withSpare, Array.size_push, Nat.succ_le_iff] at larger
      cases stack : store.reusable with
      | nil =>
          cases memory with
          | false => exact .inr rfl
          | true =>
              left
              obtain ⟨answer, allocated, allocated_too⟩ :=
                allocate_withSpare_of_no_stack stack room length
              simp only [perform, allocated, allocated_too]
      | cons handle rest =>
          right
          have inside := wf.index_lt (by rw [stack]; exact List.mem_cons_self)
          simp only [perform, allocate_withSpare_of_stack stack inside]
          cases store.allocate length memory <;> rfl
  | free handle =>
      right
      simp only [perform, free_withSpare]
      cases store.free handle <;> rfl
  | write handle offset word =>
      right
      simp only [perform, write_withSpare]
      cases store.write handle offset word <;> rfl
  | install handle =>
      right
      simp only [perform, install_withSpare]
      cases store.install handle <;> rfl
  | read handle offset =>
      right
      simp only [perform, read, segment_withSpare]
  | length handle =>
      right
      simp only [perform, length, segment_withSpare]
  | segment handle =>
      right
      simp only [perform, segment_withSpare]
  | program =>
      right
      simp only [perform, program, segment_withSpare]
  | liveCount =>
      right
      simp only [perform, liveCount_withSpare]
  | release => exact .inl rfl

theorem answers_withSpare (wf : store.WellFormed) (wf_spare : store.withSpare.WellFormed)
    (calls : List Call) : store.withSpare.answers calls = store.answers calls := by
  induction calls generalizing store with
  | nil => rfl
  | cons call rest ih =>
      have next := wf_spare.perform call
      rcases perform_withSpare wf wf_spare call with same | spare
      · rw [answers, answers, same]
      · rw [spare] at next
        rw [answers, answers, spare]
        exact congrArg (List.cons _) (ih (wf.perform call) next)

/-! ## The pair of calls -/

/-- What was mapped is unmapped, and then there is at most the gap to tell of it. -/
theorem free_of_allocate (wf : store.WellFormed) {length : Nat} {memory : Bool} {next : Store}
    (allocated : store.allocate length memory = .ok (handle, next)) (other : handle ≠ .program) :
    ∃ last, next.free handle = .ok last ∧
      ((store.reusable ≠ [] ∧ last = store) ∨ (store.reusable = [] ∧ last = store.withSpare)) := by
  have found := find?_allocate allocated (fun reused mem => wf.index_lt mem) handle
  rw [if_pos rfl] at found
  refine ⟨_, free_of_find? other found, ?_⟩
  obtain ⟨rest, stack, rfl⟩ | ⟨stack, room, rfl, rfl⟩ := allocate_cases allocated
  · left
    have reused : handle ∈ store.reusable := by simp [stack]
    obtain ⟨inside, gap⟩ := Array.getElem?_eq_some_iff.mp ((wf.mem_reusable_iff handle).mp reused)
    refine ⟨List.ne_nil_of_mem reused, ?_⟩
    rw [Array.setIfInBounds_setIfInBounds, ← stack, ← gap, Array.setIfInBounds_def, dif_pos inside,
      Array.set_getElem_self]
  · right
    refine ⟨stack, ?_⟩
    rw [withSpare, stack, Handle.index_ofIndex room, setIfInBounds_push_size]
    rfl

/-- A segment that is mapped and unmapped again leaves no trace that a call could find. In a store
with a program the handle that the first call answers can be given to the second, and any calls
after the two are answered as if there had been neither. -/
theorem map_unmap_unobservable (history : List Call) {length : Nat} {memory : Bool}
    {handle : Handle} (program : (((∅ : Store).after history).find? .program).isSome)
    (answered :
      (((∅ : Store).after history).perform (.allocate length memory)).1 = .ok (.handle handle)) :
    let store := (∅ : Store).after history
    let pair : List Call := [.allocate length memory, .free handle]
    store.answers pair = [.ok (.handle handle), .ok .done] ∧
    ∀ calls, (store.after pair).answers calls = store.answers calls := by
  intro store pair
  have wf : store.WellFormed := wellFormed_after history
  rcases store.perform_allocate length memory with
    ⟨fault, refused⟩ | ⟨given, next, allocated, done⟩
  · rw [refused] at answered
    cases answered
  · obtain rfl : given = handle := by
      rw [done] at answered
      cases answered
      rfl
    have other : given ≠ .program := by
      rintro rfl
      rw [wf.find?_allocated allocated] at program
      cases program
    obtain ⟨last, freed, trace⟩ := free_of_allocate wf allocated other
    have unmapped : next.perform (.free given) = (.ok .done, last) := by
      simp only [perform, freed]
    have reached : store.after pair = last := by
      simp only [pair, after, List.foldl_cons, List.foldl_nil, done, unmapped]
    constructor
    · simp only [pair, answers, done, unmapped]
    · intro calls
      rw [reached]
      rcases trace with ⟨-, rfl⟩ | ⟨-, rfl⟩
      · rfl
      · have wf_spare := wf.after pair
        rw [reached] at wf_spare
        exact answers_withSpare wf wf_spare calls

/-- A segment is mapped and unmapped while no handle waits, so that the two stores differ. Three
segments are mapped afterwards, with the handle of the first unmapped in between. -/
theorem map_unmap_unobservable_spare :
    let history : List Call := [.allocate 1, .allocate 2]
    let store := (∅ : Store).after history
    let pair : List Call := [.allocate 3, .free ⟨2⟩]
    let calls : List Call :=
      [.free ⟨2⟩, .allocate 1, .free ⟨1⟩, .allocate 1, .allocate 1, .liveCount]
    (store.find? .program).isSome ∧
    (store.perform (.allocate 3)).1 = .ok (.handle ⟨2⟩) ∧
    store.after pair ≠ store ∧
    (store.after pair).answers calls = store.answers calls ∧
    store.answers calls = [.error (.unmappedSegment ⟨2⟩), .ok (.handle ⟨2⟩), .ok .done,
      .ok (.handle ⟨1⟩), .ok (.handle ⟨3⟩), .ok (.count 4)] := by
  intro history store pair calls
  have program : (store.find? .program).isSome := by decide +kernel
  have answered : (store.perform (.allocate 3)).1 = .ok (.handle ⟨2⟩) := by decide +kernel
  have unobservable := (map_unmap_unobservable history program answered).2 calls
  exact ⟨program, answered, by decide +kernel, unobservable, by decide +kernel⟩

end Store

end UniversalMachine
