import UniversalMachine.Store.Call

/-!
# The store changed in place

A request can be carried out as a sequence of changes to one store, and what was changed before a
refusal stays changed. Every request finds out whether it has to be refused before its first
change: a new segment gets its memory before a handle is taken from the stack. So a refused request
has changed nothing, and the calls come to the answers and stores of `perform`.
-/

namespace UniversalMachine

namespace Store

/-- A request that works on one store. A refusal leaves the store as it is at that point. -/
abbrev InPlace :=
  ExceptT Fault (StateM Store)

namespace InPlace

variable {α : Type}

/-- The answer of a request, and what it leaves of the store. -/
def on (request : InPlace α) (store : Store) : Except Fault α × Store :=
  Id.run (request.run.run store)

/-! ## The requests -/

/-- The words of a new segment, if there is memory for them. -/
def zeroed (length : Nat) (memory : Bool) : InPlace Segment :=
  if memory then return Array.replicate length 0
  else throw (.allocationFailed length)

/-- Takes the top off the stack. -/
def pop : InPlace (Option Handle) :=
  modifyGet fun store =>
    match store with
    | ⟨table, handle :: rest⟩ => (some handle, ⟨table, rest⟩)
    | ⟨table, []⟩ => (none, ⟨table, []⟩)

def push (handle : Handle) : InPlace Unit :=
  modify fun store => { store with reusable := handle :: store.reusable }

/-- Replaces an entry of the table. -/
def assign (handle : Handle) (entry : Option Segment) : InPlace Unit :=
  modify fun store => { store with table := store.table.setIfInBounds handle.index entry }

def extend (entry : Option Segment) : InPlace Unit :=
  modify fun store => { store with table := store.table.push entry }

def allocate (length : Nat) (memory : Bool) : InPlace Handle := do
  let words ← zeroed length memory
  match ← pop with
  | some handle =>
    assign handle (some words)
    return handle
  | none =>
    let store ← get
    if store.table.size < handleCount then
      extend (some words)
      return .ofIndex store.table.size
    else throw .handlesExhausted

def segment (handle : Handle) : InPlace Segment := do
  match (← get).find? handle with
  | some words => return words
  | none => throw (.unmappedSegment handle)

def free (handle : Handle) : InPlace Unit := do
  if handle = .program then throw .unmapSegmentZero
  else
    let _ ← segment handle
    assign handle none
    push handle

def read (handle : Handle) (offset : Word) : InPlace Word := do
  let words ← segment handle
  match words[offset.toNat]? with
  | some word => return word
  | none => throw (.offsetOutOfBounds handle offset words.size)

def write (handle : Handle) (offset word : Word) : InPlace Unit := do
  let words ← segment handle
  if offset.toNat < words.size then
    assign handle (some (words.setIfInBounds offset.toNat word))
  else throw (.offsetOutOfBounds handle offset words.size)

def install (handle : Handle) : InPlace Unit := do
  let words ← segment handle
  if handle = .program then return
  else if (← get).table.isEmpty then throw (.unmappedSegment .program)
  else assign .program (some words)

/-- What a call asks for. -/
def request : Call → InPlace Answer
  | .allocate length memory => return .handle (← allocate length memory)
  | .free handle => do
    free handle
    return .done
  | .read handle offset => return .word (← read handle offset)
  | .write handle offset word => do
    write handle offset word
    return .done
  | .length handle => return .count (← segment handle).size
  | .install handle => do
    install handle
    return .done
  | .segment handle => return .words (← segment handle)
  | .program => return .words (← segment .program)
  | .liveCount => return .count (← get).liveCount
  | .release => do
    set (∅ : Store)
    return .done

/-! ## What they come to -/

section Outcomes

variable {β : Type} {first : InPlace α} {store next : Store}

theorem on_bind_ok {answer : α} (answered : first.on store = (.ok answer, next))
    (rest : α → InPlace β) : (first >>= rest).on store = (rest answer).on next := by
  have run : first.run.run store = (.ok answer, next) := answered
  simp only [on, ExceptT.run_bind, StateT.run_bind, run]
  rfl

theorem on_bind_error {fault : Fault} (refused : first.on store = (.error fault, next))
    (rest : α → InPlace β) : (first >>= rest).on store = (.error fault, next) := by
  have run : first.run.run store = (.error fault, next) := refused
  simp only [on, ExceptT.run_bind, StateT.run_bind, run]
  rfl

theorem on_map (first : InPlace α) (answer : α → β) (store : Store) :
    (first >>= fun result => pure (answer result)).on store =
      (answer <$> (first.on store).1, (first.on store).2) := by
  rcases outcome : first.on store with ⟨fault | result, next⟩
  · exact on_bind_error outcome _
  · exact on_bind_ok outcome _

end Outcomes

variable {store : Store} {handle : Handle}

theorem on_get (store : Store) : (get : InPlace Store).on store = (.ok store, store) :=
  rfl

theorem on_segment_of_find? {words : Segment} (found : store.find? handle = some words) :
    (segment handle).on store = (.ok words, store) := by
  rw [segment, on_bind_ok (on_get store), found]
  rfl

theorem on_segment_of_unmapped (missing : store.find? handle = none) :
    (segment handle).on store = (.error (.unmappedSegment handle), store) := by
  rw [segment, on_bind_ok (on_get store), missing]
  rfl

theorem on_segment (store : Store) (handle : Handle) :
    (segment handle).on store = (store.segment handle, store) := by
  cases found : store.find? handle with
  | none => rw [on_segment_of_unmapped found, segment_of_unmapped found]
  | some words => rw [on_segment_of_find? found, segment_of_find? found]

theorem on_zeroed (store : Store) (length : Nat) :
    (zeroed length true).on store = (.ok (Array.replicate length 0), store) :=
  rfl

theorem on_zeroed_of_no_memory (store : Store) (length : Nat) :
    (zeroed length false).on store = (.error (.allocationFailed length), store) :=
  rfl

/-- Without memory a segment is refused before anything is done for it. -/
theorem on_allocate_of_no_memory (store : Store) (length : Nat) :
    (allocate length false).on store = (.error (.allocationFailed length), store) :=
  on_bind_error (on_zeroed_of_no_memory store length) _

theorem on_allocate_of_stack (length : Nat) (rest : List Handle)
    (table : Array (Option Segment)) :
    (allocate length true).on ⟨table, handle :: rest⟩ =
      (.ok handle,
        ⟨table.setIfInBounds handle.index (some (Array.replicate length 0)), rest⟩) := by
  rw [allocate, on_bind_ok (on_zeroed _ length)]
  rfl

theorem on_allocate_of_no_stack (length : Nat) (table : Array (Option Segment)) :
    (allocate length true).on ⟨table, []⟩ =
      if table.size < handleCount then
        (.ok (.ofIndex table.size), ⟨table.push (some (Array.replicate length 0)), []⟩)
      else (.error .handlesExhausted, ⟨table, []⟩) := by
  have popped : pop.on ⟨table, []⟩ = (.ok none, ⟨table, []⟩) := rfl
  rw [allocate, on_bind_ok (on_zeroed _ length), on_bind_ok popped, on_bind_ok (on_get _)]
  by_cases handles : table.size < handleCount
  · rw [if_pos handles, if_pos handles]
    rfl
  · rw [if_neg handles, if_neg handles]
    rfl

theorem on_request_allocate (store : Store) (length : Nat) (memory : Bool) :
    (request (.allocate length memory)).on store = store.perform (.allocate length memory) := by
  rw [perform]
  cases memory with
  | false =>
      rw [allocate_of_no_memory]
      exact on_bind_error (on_allocate_of_no_memory store length) _
  | true =>
      obtain ⟨table, _ | ⟨handle, rest⟩⟩ := store
      · have allocated := on_allocate_of_no_stack length table
        rw [allocate_of_no_stack rfl]
        by_cases handles : table.size < handleCount
        · rw [if_pos handles] at allocated
          simp only [if_pos handles]
          exact on_bind_ok allocated _
        · rw [if_neg handles] at allocated
          simp only [if_neg handles]
          exact on_bind_error allocated _
      · rw [allocate_of_stack rfl]
        exact on_bind_ok (on_allocate_of_stack length rest table) _

theorem on_request_free (store : Store) (handle : Handle) :
    (request (.free handle)).on store = store.perform (.free handle) := by
  rw [perform]
  by_cases program : handle = .program
  · have refused : (free handle).on store = (.error .unmapSegmentZero, store) := by
      rw [free, if_pos program]
      rfl
    rw [Store.free, if_pos program]
    exact on_bind_error refused _
  · cases found : store.find? handle with
    | none =>
        have refused : (free handle).on store = (.error (.unmappedSegment handle), store) := by
          rw [free, if_neg program]
          exact on_bind_error (on_segment_of_unmapped found) _
        rw [free_of_unmapped program found]
        exact on_bind_error refused _
    | some words =>
        have freed : (free handle).on store = (.ok (),
            ⟨store.table.setIfInBounds handle.index none, handle :: store.reusable⟩) := by
          rw [free, if_neg program]
          exact on_bind_ok (on_segment_of_find? found) _
        rw [free_of_find? program found]
        exact on_bind_ok freed _

theorem on_read (store : Store) (handle : Handle) (offset : Word) :
    (read handle offset).on store = (store.read handle offset, store) := by
  rw [Store.read]
  cases found : store.find? handle with
  | none =>
      rw [segment_of_unmapped found]
      exact on_bind_error (on_segment_of_unmapped found) _
  | some words =>
      rw [segment_of_find? found, read, on_bind_ok (on_segment_of_find? found)]
      cases cell : words[offset.toNat]? <;> simp [cell] <;> rfl

theorem on_request_read (store : Store) (handle : Handle) (offset : Word) :
    (request (.read handle offset)).on store = store.perform (.read handle offset) := by
  rw [request, on_map, on_read, perform]

theorem on_request_write (store : Store) (handle : Handle) (offset word : Word) :
    (request (.write handle offset word)).on store =
      store.perform (.write handle offset word) := by
  rw [perform]
  cases found : store.find? handle with
  | none =>
      rw [write_of_unmapped found]
      exact on_bind_error (on_bind_error (on_segment_of_unmapped found) _) _
  | some words =>
      have opened : (write handle offset word).on store = _ :=
        on_bind_ok (on_segment_of_find? found) _
      rw [write_of_find? found]
      by_cases inside : offset.toNat < words.size
      · rw [if_pos inside] at opened ⊢
        exact on_bind_ok opened _
      · rw [if_neg inside] at opened ⊢
        exact on_bind_error opened _

theorem on_request_install (store : Store) (handle : Handle) :
    (request (.install handle)).on store = store.perform (.install handle) := by
  rw [perform]
  cases found : store.find? handle with
  | none =>
      rw [install_of_unmapped found]
      exact on_bind_error (on_bind_error (on_segment_of_unmapped found) _) _
  | some words =>
      have opened : (install handle).on store = _ := on_bind_ok (on_segment_of_find? found) _
      by_cases program : handle = .program
      · rw [if_pos program] at opened
        rw [Store.install, segment_of_find? found]
        simp only [if_pos program]
        exact on_bind_ok opened _
      · have nonempty : store.table.isEmpty = false := by
          simpa using nonempty_of_find? found
        rw [if_neg program, on_bind_ok (on_get store), nonempty,
          if_neg Bool.false_ne_true] at opened
        rw [install_of_other program found]
        exact on_bind_ok opened _

theorem on_request_segment (store : Store) (handle : Handle) :
    (request (.segment handle)).on store = store.perform (.segment handle) := by
  rw [request, on_map, on_segment, perform]

theorem on_request_length (store : Store) (handle : Handle) :
    (request (.length handle)).on store = store.perform (.length handle) := by
  rw [request, on_map, on_segment, perform, length, ← comp_map]
  rfl

/-- Changing the store in place comes to what the calls do. -/
theorem on_request (store : Store) (call : Call) :
    (request call).on store = store.perform call := by
  cases call with
  | allocate length memory => exact on_request_allocate store length memory
  | free handle => exact on_request_free store handle
  | read handle offset => exact on_request_read store handle offset
  | write handle offset word => exact on_request_write store handle offset word
  | length handle => exact on_request_length store handle
  | install handle => exact on_request_install store handle
  | segment handle => exact on_request_segment store handle
  | program => exact on_request_segment store .program
  | liveCount | release => rfl

end InPlace

end Store

end UniversalMachine
