import UniversalMachine.Store

/-!
# Calls of the store

A call is a request to the store together with its arguments, so that a history of the
store is a list of calls. Performing a call gives an answer and the next store; a refused
call leaves the store as it was. The calls that change what is mapped are events.
-/

namespace UniversalMachine

namespace Store

/-- A request to the store. -/
inductive Call where
  /-- Maps a segment, with or without memory for it. -/
  | allocate (length : Nat) (memory : Bool := true)
  | free (handle : Handle)
  | read (handle : Handle) (offset : Word)
  | write (handle : Handle) (offset word : Word)
  | length (handle : Handle)
  | install (handle : Handle)
  | segment (handle : Handle)
  | program
  | liveCount
  /-- Unmaps everything, the program included. -/
  | release
deriving DecidableEq, Repr

/-- The answer to a call that was not refused. -/
inductive Answer where
  | done
  | handle (handle : Handle)
  | word (word : Word)
  | count (count : Nat)
  | words (words : Segment)
deriving DecidableEq, Repr

/-- A change of what is mapped. -/
inductive Event where
  | mapped (handle : Handle) (length : Nat)
  | unmapped (handle : Handle)
  /-- The program became a copy of another segment. -/
  | installed (handle : Handle) (length : Nat)
deriving DecidableEq, Repr

/-- The answer to a call and the store after it. -/
def perform (store : Store) : Call → Except Fault Answer × Store
  | .allocate length memory =>
    match store.allocate length memory with
    | .ok (handle, store) => (.ok (.handle handle), store)
    | .error fault => (.error fault, store)
  | .free handle =>
    match store.free handle with
    | .ok store => (.ok .done, store)
    | .error fault => (.error fault, store)
  | .read handle offset => (.word <$> store.read handle offset, store)
  | .write handle offset word =>
    match store.write handle offset word with
    | .ok store => (.ok .done, store)
    | .error fault => (.error fault, store)
  | .length handle => (.count <$> store.length handle, store)
  | .install handle =>
    match store.install handle with
    | .ok store => (.ok .done, store)
    | .error fault => (.error fault, store)
  | .segment handle => (.words <$> store.segment handle, store)
  | .program => (.words <$> store.program, store)
  | .liveCount => (.ok (.count store.liveCount), store)
  | .release => (.ok .done, ∅)

/-- The store after a history of calls. -/
def after (store : Store) (history : List Call) : Store :=
  history.foldl (fun store call => (store.perform call).2) store

/-- The answers to the calls of a history. -/
def answers (store : Store) : List Call → List (Except Fault Answer)
  | [] => []
  | call :: rest =>
    let (answer, store) := store.perform call
    answer :: store.answers rest

/-- A call that maps a segment is refused and changes nothing, or it does what `allocate` does.
The next three say the same of the other calls that can change the store. -/
theorem perform_allocate (store : Store) (length : Nat) (memory : Bool) :
    (∃ fault, store.perform (.allocate length memory) = (.error fault, store)) ∨
    ∃ handle next, store.allocate length memory = .ok (handle, next) ∧
      store.perform (.allocate length memory) = (.ok (.handle handle), next) := by
  cases allocated : store.allocate length memory with
  | error fault => exact .inl ⟨fault, by simp only [perform, allocated]⟩
  | ok result => exact .inr ⟨result.1, result.2, rfl, by simp only [perform, allocated]⟩

theorem perform_free (store : Store) (handle : Handle) :
    (∃ fault, store.perform (.free handle) = (.error fault, store)) ∨
    ∃ next, store.free handle = .ok next ∧ store.perform (.free handle) = (.ok .done, next) := by
  cases freed : store.free handle with
  | error fault => exact .inl ⟨fault, by simp only [perform, freed]⟩
  | ok next => exact .inr ⟨next, rfl, by simp only [perform, freed]⟩

theorem perform_write (store : Store) (handle : Handle) (offset word : Word) :
    (∃ fault, store.perform (.write handle offset word) = (.error fault, store)) ∨
    ∃ next, store.write handle offset word = .ok next ∧
      store.perform (.write handle offset word) = (.ok .done, next) := by
  cases written : store.write handle offset word with
  | error fault => exact .inl ⟨fault, by simp only [perform, written]⟩
  | ok next => exact .inr ⟨next, rfl, by simp only [perform, written]⟩

theorem perform_install (store : Store) (handle : Handle) :
    (∃ fault, store.perform (.install handle) = (.error fault, store)) ∨
    ∃ next, store.install handle = .ok next ∧
      store.perform (.install handle) = (.ok .done, next) := by
  cases installed : store.install handle with
  | error fault => exact .inl ⟨fault, by simp only [perform, installed]⟩
  | ok next => exact .inr ⟨next, rfl, by simp only [perform, installed]⟩

/-- What a call that was answered changes of the mapping, given the store before it. -/
def event? (store : Store) : Call → Answer → Option Event
  | .allocate length _, .handle handle => some (.mapped handle length)
  | .free handle, .done => some (.unmapped handle)
  | .install handle, .done =>
    if handle = .program then none
    else (store.find? handle).map fun words => .installed handle words.size
  | _, _ => none

end Store

end UniversalMachine
