import UniversalMachine.Proofs.StoreHistory
import UniversalMachine.Proofs.StoreInPlace
import UniversalMachine.Proofs.StoreRefusal
import Mathlib.Data.List.DropRight

/-!
# Live handles

The answers to the calls of a history tell which handles are live: those that were given out after
the last release and not taken back since. A request for one segment is refused exactly if its
handle is not live or its offset is not below the length of the segment, and unmapping also if the
segment is the program. The calls change one store in place, and a refusal changes nothing, also
when memory is what was missing.
-/

namespace UniversalMachine

namespace Store

/-! ## What the answers tell -/

/-- A handle was given out. -/
def GivesOut (handle : Handle) (exchange : Exchange) : Prop :=
  ∃ length memory, exchange = (.allocate length memory, .ok (.handle handle))

/-- A handle was taken back. -/
def TakesBack (handle : Handle) (exchange : Exchange) : Prop :=
  ∃ answer, exchange = (.free handle, .ok answer)

/-- The exchanges after the last release, all of them if there was none. -/
def sinceRelease (exchanges : List Exchange) : List Exchange :=
  exchanges.rtakeWhile fun exchange => exchange.1 ≠ .release

/-- Among the exchanges since the last release, the latest that gave a handle out or took it back
gave it out. -/
def Live (exchanges : List Exchange) (handle : Handle) : Prop :=
  ∃ before exchange since, sinceRelease exchanges = before ++ exchange :: since ∧
    GivesOut handle exchange ∧
    ∀ later ∈ since, ¬ GivesOut handle later ∧ ¬ TakesBack handle later

/-- A handle is live after one more exchange, if `live` says whether it was before. -/
def LiveAfter (handle : Handle) (live : Prop) (exchange : Exchange) : Prop :=
  exchange.1 ≠ .release ∧
    (GivesOut handle exchange ∨ ¬ TakesBack handle exchange ∧ live)

variable {handle : Handle} {exchange : Exchange} {live : Prop}

theorem liveAfter_congr {other : Prop} (same : live ↔ other) :
    LiveAfter handle live exchange ↔ LiveAfter handle other exchange := by
  rw [LiveAfter, LiveAfter, same]

theorem liveAfter_of_refused {call : Call} {fault : Fault} (kept : call ≠ .release) :
    LiveAfter handle live (call, .error fault) ↔ live := by
  simp [LiveAfter, kept, GivesOut, TakesBack]

theorem sinceRelease_of_release (exchanges : List Exchange) (released : exchange.1 = .release) :
    sinceRelease (exchanges ++ [exchange]) = [] :=
  List.rtakeWhile_concat_neg _ _ _ (by simpa using released)

theorem sinceRelease_of_not_release (exchanges : List Exchange) (kept : exchange.1 ≠ .release) :
    sinceRelease (exchanges ++ [exchange]) = sinceRelease exchanges ++ [exchange] :=
  List.rtakeWhile_concat_pos _ _ _ (by simpa using kept)

theorem not_live_nil : ¬ Live [] handle := by
  rintro ⟨before, exchange, since, split, -⟩
  simp [sinceRelease] at split

theorem Live.of_givesOut (exchanges : List Exchange) (kept : exchange.1 ≠ .release)
    (given : GivesOut handle exchange) : Live (exchanges ++ [exchange]) handle :=
  ⟨sinceRelease exchanges, exchange, [], sinceRelease_of_not_release exchanges kept, given,
    by simp⟩

theorem Live.append_singleton {exchanges : List Exchange} (alive : Live exchanges handle)
    (kept : exchange.1 ≠ .release)
    (quiet : ¬ GivesOut handle exchange ∧ ¬ TakesBack handle exchange) :
    Live (exchanges ++ [exchange]) handle := by
  obtain ⟨before, latest, since, split, given, quiet_since⟩ := alive
  refine ⟨before, latest, since ++ [exchange], ?_, given, ?_⟩
  · rw [sinceRelease_of_not_release exchanges kept, split, List.append_assoc, List.cons_append]
  · intro later mem
    rcases List.mem_append.mp mem with old | new
    · exact quiet_since later old
    · rwa [List.mem_singleton.mp new]

theorem live_append_singleton (exchanges : List Exchange) :
    Live (exchanges ++ [exchange]) handle ↔ LiveAfter handle (Live exchanges handle) exchange := by
  constructor
  · rintro ⟨before, latest, since, split, given, quiet⟩
    have kept : exchange.1 ≠ .release := by
      intro released
      rw [sinceRelease_of_release exchanges released] at split
      simp at split
    rw [sinceRelease_of_not_release exchanges kept] at split
    refine ⟨kept, ?_⟩
    -- The exchange is the one that gave the handle out, or the last of those after it.
    rcases List.eq_nil_or_concat since with rfl | ⟨rest, last, rfl⟩
    · obtain ⟨-, same⟩ := List.append_inj' split rfl
      cases same
      exact .inl given
    · have longer : before ++ latest :: rest.concat last =
          (before ++ latest :: rest) ++ [last] := by
        rw [List.concat_eq_append, List.append_assoc, List.cons_append]
      obtain ⟨shorter, same⟩ := List.append_inj' (split.trans longer) rfl
      cases same
      have taken := (quiet exchange (by simp)).2
      exact .inr ⟨taken, before, latest, rest, shorter, given,
        fun later mem => quiet later (by simp [mem])⟩
  · rintro ⟨kept, given | ⟨taken, alive⟩⟩
    · exact .of_givesOut exchanges kept given
    · by_cases given : GivesOut handle exchange
      · exact .of_givesOut exchanges kept given
      · exact alive.append_singleton kept ⟨given, taken⟩

/-! ## What the store holds -/

variable {store : Store}

/-- What a call does for a handle is told by its answer. -/
theorem isSome_perform (wf : store.WellFormed) (call : Call) (handle : Handle) :
    ((store.perform call).2.find? handle).isSome ↔
      LiveAfter handle (store.find? handle).isSome (call, (store.perform call).1) := by
  cases call with
  | allocate length memory =>
      rcases store.perform_allocate length memory with
        ⟨fault, refused⟩ | ⟨fresh, next, allocated, done⟩
      · rw [refused, liveAfter_of_refused Call.noConfusion]
      · rw [done, find?_allocate allocated (fun reused h => wf.index_lt h), LiveAfter]
        by_cases same : handle = fresh
        · subst same
          simp [GivesOut]
        · simp [same, Ne.symm same, GivesOut, TakesBack]
  | free freed =>
      rcases store.perform_free freed with ⟨fault, refused⟩ | ⟨next, success, done⟩
      · rw [refused, liveAfter_of_refused Call.noConfusion]
      · rw [done, find?_free success, LiveAfter]
        by_cases same : handle = freed
        · subst same
          simp [GivesOut, TakesBack]
        · simp [same, Ne.symm same, GivesOut, TakesBack]
  | write target position word =>
      rcases store.perform_write target position word with ⟨fault, refused⟩ | ⟨next, success, done⟩
      · rw [refused, liveAfter_of_refused Call.noConfusion]
      · rw [done, find?_write success, LiveAfter]
        by_cases same : handle = target <;> simp [same, GivesOut, TakesBack]
  | install source =>
      rcases store.perform_install source with ⟨fault, refused⟩ | ⟨next, success, done⟩
      · rw [refused, liveAfter_of_refused Call.noConfusion]
      · -- The program was there before, as there is a segment to install.
        obtain ⟨words, found, -⟩ := install_cases success
        obtain ⟨program, mapped⟩ := wf.program_of_find? found
        rw [done, find?_install success, LiveAfter]
        by_cases same : handle = .program <;> simp [same, found, mapped, GivesOut, TakesBack]
  | release => simp [perform, find?, EmptyCollection.emptyCollection, LiveAfter]
  | read | length | segment | program | liveCount =>
      simp [perform, LiveAfter, GivesOut, TakesBack]

/-- The store has the segments that the answers tell of. The induction is on the end of the history,
so that the last call finds a store with the invariant. -/
theorem isSome_of_history (history : List Call) (handle : Handle) :
    (((∅ : Store).after history).find? handle).isSome ↔
      Live ((∅ : Store).exchanges history) handle := by
  induction history using List.reverseRecOn with
  | nil => exact iff_of_false Bool.false_ne_true not_live_nil
  | append_singleton history call ih =>
      rw [after_append, after_singleton, exchanges_append, exchanges_singleton,
        isSome_perform (wellFormed_after history), live_append_singleton, liveAfter_congr ih]

theorem perform_of_error {call : Call} {fault : Fault}
    (refused : (store.perform call).1 = .error fault) : (store.perform call).2 = store := by
  cases call with
  | allocate length memory =>
      rcases store.perform_allocate length memory with ⟨_, same⟩ | ⟨fresh, next, -, done⟩
      · rw [same]
      · simp [done] at refused
  | free handle =>
      rcases store.perform_free handle with ⟨_, same⟩ | ⟨next, -, done⟩
      · rw [same]
      · simp [done] at refused
  | write handle offset word =>
      rcases store.perform_write handle offset word with ⟨_, same⟩ | ⟨next, -, done⟩
      · rw [same]
      · simp [done] at refused
  | install handle =>
      rcases store.perform_install handle with ⟨_, same⟩ | ⟨next, -, done⟩
      · rw [same]
      · simp [done] at refused
  | release => cases refused
  | read | length | segment | program | liveCount => rfl

/-! ## Histories in place -/

/-- The answer to a call that changes the store in place, and the store after it. -/
def performInPlace (store : Store) (call : Call) : Except Fault Answer × Store :=
  (InPlace.request call).on store

/-- The store after a history. -/
def afterInPlace (store : Store) (history : List Call) : Store :=
  history.foldl (fun store call => (store.performInPlace call).2) store

/-- The calls of a history, each with its answer. -/
def exchangesInPlace (store : Store) : List Call → List Exchange
  | [] => []
  | call :: rest =>
    (call, (store.performInPlace call).1) :: (store.performInPlace call).2.exchangesInPlace rest

theorem performInPlace_eq (store : Store) (call : Call) :
    store.performInPlace call = store.perform call :=
  InPlace.on_request store call

theorem afterInPlace_eq (store : Store) (history : List Call) :
    store.afterInPlace history = store.after history := by
  simp only [afterInPlace, after, performInPlace_eq]

theorem exchangesInPlace_eq (store : Store) (history : List Call) :
    store.exchangesInPlace history = store.exchanges history := by
  induction history generalizing store with
  | nil => rfl
  | cons call rest ih =>
      rw [exchangesInPlace, performInPlace_eq, ih]
      rfl

/-- In every store that calls in place lead to from the empty one, with or without memory whenever
a segment is mapped, the answers so far decide what is refused, and for which reason. The length of
a segment and installing it are refused if the handle is not live, reading and writing also if the
offset is not below the length, and unmapping if the handle is not live or names the program. The
calls are the requests, and whenever a call is refused, the store stays the same. -/
theorem refusals_of_history (history : List Call) :
    let store := (∅ : Store).afterInPlace history
    let live := Live ((∅ : Store).exchangesInPlace history)
    (∀ handle fault,
      (store.length handle = .error fault ↔ ¬ live handle ∧ fault = .unmappedSegment handle) ∧
      (store.install handle = .error fault ↔ ¬ live handle ∧ fault = .unmappedSegment handle) ∧
      (store.free handle = .error fault ↔
        handle = .program ∧ fault = .unmapSegmentZero ∨
        handle ≠ .program ∧ ¬ live handle ∧ fault = .unmappedSegment handle) ∧
      ∀ offset,
        (store.read handle offset = .error fault ↔
          ¬ live handle ∧ fault = .unmappedSegment handle ∨
          live handle ∧ ∃ length, store.length handle = .ok length ∧ length ≤ offset.toNat ∧
            fault = .offsetOutOfBounds handle offset length) ∧
        ∀ word,
          (store.write handle offset word = .error fault ↔
            ¬ live handle ∧ fault = .unmappedSegment handle ∨
            live handle ∧ ∃ length, store.length handle = .ok length ∧ length ≤ offset.toNat ∧
              fault = .offsetOutOfBounds handle offset length)) ∧
    (∀ call, store.performInPlace call = store.perform call) ∧
    ∀ call fault, (store.performInPlace call).1 = .error fault →
      (store.performInPlace call).2 = store := by
  intro store live
  have told : ∀ handle, (store.find? handle).isSome ↔ live handle := by
    intro handle
    simp only [store, live, afterInPlace_eq, exchangesInPlace_eq]
    exact isSome_of_history history handle
  have missing : ∀ handle, store.find? handle = none ↔ ¬ live handle := by
    intro handle
    rw [← told, Option.not_isSome_iff_eq_none]
  refine ⟨?_, store.performInPlace_eq, ?_⟩
  · intro handle fault
    refine ⟨?_, ?_, ?_, ?_⟩
    · rw [length_eq_error_iff, missing]
    · rw [install_eq_error_iff, missing]
    · rw [free_eq_error_iff, missing]
    · intro offset
      have cell : store.CellFails handle offset fault ↔
          ¬ live handle ∧ fault = .unmappedSegment handle ∨
          live handle ∧ ∃ length, store.length handle = .ok length ∧ length ≤ offset.toNat ∧
            fault = .offsetOutOfBounds handle offset length := by
        rw [cellFails_iff, missing, told]
      exact ⟨read_eq_error_iff.trans cell, fun word => write_eq_error_iff.trans cell⟩
  · intro call fault refused
    rw [performInPlace_eq] at refused ⊢
    exact perform_of_error refused

/-- A history with a release, a handle that is unmapped twice and one that is used again. Memory is
missing once, while two handles are on the stack. -/
theorem refusals_of_history_reuse :
    let before : List Call := [.allocate 4, .allocate 2, .release, .free .program, .allocate 3,
      .allocate 2, .allocate 1, .free ⟨1⟩, .free ⟨1⟩, .free ⟨2⟩]
    let failing : Call := .allocate 5 false
    let history := before ++ [failing, .allocate 6]
    let early := (∅ : Store).afterInPlace before
    let store := (∅ : Store).afterInPlace history
    let live := Live ((∅ : Store).exchangesInPlace history)
    early.reusable = [⟨2⟩, ⟨1⟩] ∧
    (early.performInPlace failing).1 = .error (.allocationFailed 5) ∧
    (early.performInPlace failing).2 = early ∧
    store.free ⟨1⟩ = .error (.unmappedSegment ⟨1⟩) ∧ ¬ live ⟨1⟩ ∧
    store.read ⟨2⟩ 6 = .error (.offsetOutOfBounds ⟨2⟩ 6 6) ∧ live ⟨2⟩ := by
  intro before failing history early store live
  have stack : early.reusable = [⟨2⟩, ⟨1⟩] := by decide +kernel
  have failed : (early.performInPlace failing).1 = .error (.allocationFailed 5) := by decide +kernel
  have freed_twice : store.free ⟨1⟩ = .error (.unmappedSegment ⟨1⟩) := by decide +kernel
  have read_past : store.read ⟨2⟩ 6 = .error (.offsetOutOfBounds ⟨2⟩ 6 6) := by decide +kernel
  obtain ⟨-, -, unchanged⟩ := refusals_of_history before
  obtain ⟨refused, -, -⟩ := refusals_of_history history
  obtain ⟨-, -, free_refused, -⟩ := refused ⟨1⟩ (.unmappedSegment ⟨1⟩)
  obtain ⟨-, -, -, cell_refused⟩ := refused ⟨2⟩ (.offsetOutOfBounds ⟨2⟩ 6 6)
  refine ⟨stack, failed, unchanged failing _ failed, freed_twice, ?_, read_past, ?_⟩
  · rcases free_refused.mp freed_twice with ⟨program, -⟩ | ⟨-, dead, -⟩
    · cases program
    · exact dead
  · rcases (cell_refused 6).1.mp read_past with ⟨-, other⟩ | ⟨alive, -⟩
    · cases other
    · exact alive

end Store

end UniversalMachine
