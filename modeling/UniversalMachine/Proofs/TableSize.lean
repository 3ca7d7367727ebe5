import UniversalMachine.Proofs.StoreHistory
import Mathlib.Order.Bounds.Basic

/-!
# The size of the table

The table grows only when every handle it has a place for is in use. So it is as large as the
number of segments that were mapped at the same time once, and no larger, and every handle that
was given out is below that number. A release starts this anew.
-/

namespace UniversalMachine

namespace Store

/-! ## One call -/

section Call

variable {store : Store}

/-- A call leaves the table as large as it was, or it adds an entry because no handle waits to be
used again. -/
theorem size_cases (store : Store) {call : Call} (kept : call ≠ .release) :
    (store.perform call).2.table.size = store.table.size ∨
      ((store.perform call).2.table.size = store.table.size + 1 ∧
        (store.perform call).2.reusable = []) := by
  cases call with
  | allocate length memory =>
      rcases store.perform_allocate length memory with
        ⟨fault, refused⟩ | ⟨handle, next, allocated, done⟩
      · exact .inl (by rw [refused])
      · rw [done]
        obtain ⟨rest, -, rfl⟩ | ⟨-, -, -, rfl⟩ := allocate_cases allocated
        · exact .inl Array.size_setIfInBounds
        · exact .inr ⟨Array.size_push _, rfl⟩
  | free handle =>
      rcases store.perform_free handle with ⟨fault, refused⟩ | ⟨next, freed, done⟩
      · exact .inl (by rw [refused])
      · rw [done]
        obtain ⟨-, -, rfl⟩ := free_cases freed
        exact .inl Array.size_setIfInBounds
  | write handle offset word =>
      rcases store.perform_write handle offset word with ⟨fault, refused⟩ | ⟨next, written, done⟩
      · exact .inl (by rw [refused])
      · rw [done]
        obtain ⟨words, -, -, rfl⟩ := write_cases written
        exact .inl Array.size_setIfInBounds
  | install handle =>
      rcases store.perform_install handle with ⟨fault, refused⟩ | ⟨next, installed, done⟩
      · exact .inl (by rw [refused])
      · rw [done]
        obtain ⟨words, -, ⟨-, rfl⟩ | ⟨-, rfl⟩⟩ := install_cases installed
        · exact .inl rfl
        · exact .inl Array.size_setIfInBounds
  | release => exact absurd rfl kept
  | read | length | segment | program | liveCount => exact .inl rfl

/-- The table becomes larger only if more segments are mapped than ever. -/
theorem size_perform (wf : store.WellFormed) {call : Call} (kept : call ≠ .release) :
    (store.perform call).2.table.size =
      max (store.perform call).2.liveCount store.table.size := by
  have counted := (wf.perform call).liveCount_add
  rcases store.size_cases kept with same | ⟨larger, no_gap⟩
  · omega
  · rw [no_gap, List.length_nil] at counted
    omega

/-- A handle that is given out has a place in the table. -/
theorem index_lt_size (wf : store.WellFormed) {length : Nat} {memory : Bool} {handle : Handle}
    (answered : (store.perform (.allocate length memory)).1 = .ok (.handle handle)) :
    handle.index < (store.perform (.allocate length memory)).2.table.size := by
  rcases store.perform_allocate length memory with
    ⟨fault, refused⟩ | ⟨given, next, allocated, done⟩
  · rw [refused] at answered
    cases answered
  · rw [done] at answered ⊢
    cases answered
    have found := find?_allocate allocated (fun reused mem => wf.index_lt mem) handle
    rw [if_pos rfl] at found
    exact index_lt_of_find? found

end Call

/-! ## Many calls -/

/-- How many segments were mapped at each moment since everything was released last, or since the
start if it never was. -/
def liveCounts (history : List Call) : Set Nat :=
  {count | ∃ before since, history = before ++ since ∧ .release ∉ since ∧
    count = ((∅ : Store).after before).liveCount}

theorem liveCounts_nil : liveCounts [] = {0} := by
  ext count
  constructor
  · rintro ⟨before, since, parts, -, rfl⟩
    obtain ⟨rfl, -⟩ := List.append_eq_nil_iff.mp parts.symm
    rfl
  · rintro rfl
    exact ⟨[], [], rfl, List.not_mem_nil, rfl⟩

/-- After a call there is one moment more. -/
theorem liveCounts_append (history : List Call) (call : Call) :
    liveCounts (history ++ [call]) =
      insert ((∅ : Store).after (history ++ [call])).liveCount
        (if call = .release then ∅ else liveCounts history) := by
  ext count
  constructor
  · rintro ⟨before, since, parts, kept, rfl⟩
    rcases List.eq_nil_or_concat since with rfl | ⟨rest, last, rfl⟩
    · rw [List.append_nil] at parts
      exact .inl (by rw [parts])
    · rw [List.concat_eq_append, ← List.append_assoc] at parts
      obtain ⟨rfl, same⟩ := List.append_inj' parts rfl
      obtain rfl := List.singleton_injective same
      simp only [List.concat_eq_append, List.mem_append, List.mem_singleton, not_or] at kept
      rw [if_neg (Ne.symm kept.2)]
      exact .inr ⟨before, rest, rfl, kept.1, rfl⟩
  · rintro (rfl | earlier)
    · exact ⟨history ++ [call], [], (List.append_nil _).symm, List.not_mem_nil, rfl⟩
    · split at earlier
      · exact earlier.elim
      · next kept =>
          obtain ⟨before, since, rfl, none_released, rfl⟩ := earlier
          refine ⟨before, since ++ [call], List.append_assoc .., ?_, rfl⟩
          rw [List.mem_append, List.mem_singleton, not_or]
          exact ⟨none_released, Ne.symm kept⟩

/-- The induction is on the end of the history. -/
theorem size_isGreatest (history : List Call) :
    IsGreatest (liveCounts history) ((∅ : Store).after history).table.size := by
  induction history using List.reverseRecOn with
  | nil =>
      rw [liveCounts_nil]
      exact isGreatest_singleton
  | append_singleton history call ih =>
      rw [liveCounts_append]
      by_cases released : call = .release
      · subst released
        rw [if_pos rfl, after_append, after_singleton, insert_empty_eq]
        exact isGreatest_singleton
      · rw [if_neg released, after_append, after_singleton,
          size_perform (wellFormed_after history) released]
        exact ih.insert _

/-- The table is as large as the largest number of segments that were mapped at the same time
since everything was released last. A handle that is given out is smaller than the largest number
up to and including that call. -/
theorem table_peaks (history : List Call) :
    IsGreatest (liveCounts history) ((∅ : Store).after history).table.size ∧
    ∀ length memory handle,
      (((∅ : Store).after history).perform (.allocate length memory)).1 = .ok (.handle handle) →
      ∃ peak, IsGreatest (liveCounts (history ++ [.allocate length memory])) peak ∧
        handle.index < peak := by
  refine ⟨size_isGreatest history, ?_⟩
  intro length memory handle answered
  refine ⟨_, size_isGreatest (history ++ [.allocate length memory]), ?_⟩
  rw [after_append, after_singleton]
  exact index_lt_size (wellFormed_after history) answered

/-- Three segments are mapped at the same time once, after a release of four. One of them is
unmapped, a request is refused for want of memory, and the next segment gets the handle that is
free. -/
theorem table_peaks_released :
    let history : List Call := [.allocate 1, .allocate 1, .allocate 1, .allocate 1, .release,
      .allocate 4, .allocate 2, .allocate 3, .free ⟨1⟩, .allocate 9 false]
    (((∅ : Store).after history).perform (.allocate 5)).1 = .ok (.handle ⟨1⟩) ∧
    ((∅ : Store).after history).table.size = 3 ∧
    ∃ peak, IsGreatest (liveCounts (history ++ [.allocate 5])) peak ∧ (1 : Word).toNat < peak := by
  intro history
  have answered : (((∅ : Store).after history).perform (.allocate 5)).1 = .ok (.handle ⟨1⟩) := by
    decide +kernel
  exact ⟨answered, by decide +kernel, (table_peaks history).2 5 true ⟨1⟩ answered⟩

end Store

end UniversalMachine
