import UniversalMachine.Proofs.StoreHistory
import UniversalMachine.Proofs.StoreRefusal
import Mathlib.Data.List.Infix

/-!
# Handles that are used again

The handles that were unmapped lie on a stack. Unmapping puts one on top and mapping takes one
off; no other call touches the stack, and a refused call does neither. So a handle that was
unmapped keeps its place below all that is unmapped later, and it is the next to be mapped as soon
as all of that is mapped again.
-/

namespace UniversalMachine

namespace Store

/-- The call mapped a segment. -/
def maps : Exchange → Bool
  | (.allocate _ _, .ok _) => true
  | _ => false

/-- The call unmapped a segment. -/
def unmaps : Exchange → Bool
  | (.free _, .ok _) => true
  | _ => false

/-- How many of the calls mapped a segment. -/
def mappings (exchanges : List Exchange) : Nat :=
  exchanges.countP maps

/-- How many of the calls unmapped a segment. -/
def unmappings (exchanges : List Exchange) : Nat :=
  exchanges.countP unmaps

theorem mappings_append_singleton (exchanges : List Exchange) (exchange : Exchange) :
    mappings (exchanges ++ [exchange]) = mappings exchanges + (maps exchange).toNat := by
  rw [mappings, List.countP_append, List.countP_singleton]
  cases maps exchange <;> rfl

theorem unmappings_append_singleton (exchanges : List Exchange) (exchange : Exchange) :
    unmappings (exchanges ++ [exchange]) = unmappings exchanges + (unmaps exchange).toNat := by
  rw [unmappings, List.countP_append, List.countP_singleton]
  cases unmaps exchange <;> rfl

variable {store : Store}

/-! ## The stack under one call -/

/-- Unmapping puts a handle on the stack, mapping takes the top off if there is one, and nothing
else changes the stack, unless everything is released. -/
theorem reusable_perform (store : Store) {call : Call} (kept : call ≠ .release) :
    let exchange : Exchange := (call, (store.perform call).1)
    let stack := (store.perform call).2.reusable
    (maps exchange = false ∧ unmaps exchange = true ∧
      ∃ handle, stack = handle :: store.reusable) ∨
    (maps exchange = true ∧ unmaps exchange = false ∧ stack = store.reusable.tail) ∨
    (maps exchange = false ∧ unmaps exchange = false ∧ stack = store.reusable) := by
  intro exchange stack
  have turned : stack = pendingAfter store.reusable exchange :=
    (pendingAfter_perform store call).symm
  cases call with
  | allocate length memory =>
      rcases store.perform_allocate length memory with
        ⟨fault, refused⟩ | ⟨handle, next, allocated, done⟩
      · simp [exchange, turned, refused, maps, unmaps, pendingAfter]
      · obtain ⟨rest, nonempty, -⟩ | ⟨empty, -⟩ := allocate_cases allocated
        · simp [exchange, turned, done, maps, unmaps, pendingAfter, nonempty]
        · simp [exchange, turned, done, maps, unmaps, pendingAfter, empty]
  | free handle =>
      rcases store.perform_free handle with ⟨fault, refused⟩ | ⟨next, -, done⟩
      · simp [exchange, turned, refused, maps, unmaps, pendingAfter]
      · simp [exchange, turned, done, maps, unmaps, pendingAfter]
  | release => exact absurd rfl kept
  | read | write | length | install | segment | program | liveCount =>
      exact .inr (.inr ⟨rfl, rfl, turned⟩)

/-- A segment is mapped under the handle on top of the stack, if there is memory for it. -/
theorem perform_allocate_of_stack {handle : Handle} {rest : List Handle}
    (stack : store.reusable = handle :: rest) (length : Nat) (memory : Bool) :
    (store.perform (.allocate length memory)).1 =
      if memory then .ok (.handle handle) else .error (.allocationFailed length) := by
  rw [perform]
  cases memory with
  | false => rfl
  | true =>
      rw [allocate_of_stack stack]
      rfl

/-! ## The stack under many calls -/

/-- As long as no more is mapped than was on top of a part of the stack or was unmapped since, this
part stays as it is, and what lies on top of it is as high as the calls say. -/
theorem reusable_after {above below : List Handle} {calls : List Call}
    (stack : store.reusable = above ++ below) (kept : .release ∉ calls)
    (nested : ∀ before, before <+: calls →
      mappings (store.exchanges before) ≤ above.length + unmappings (store.exchanges before)) :
    ∃ top, (store.after calls).reusable = top ++ below ∧
      top.length + mappings (store.exchanges calls) =
        above.length + unmappings (store.exchanges calls) := by
  induction calls using List.reverseRecOn with
  | nil => exact ⟨above, stack, rfl⟩
  | append_singleton calls call ih =>
      rw [List.mem_append, List.mem_singleton, not_or] at kept
      obtain ⟨top, below_top, height⟩ :=
        ih kept.1 fun before earlier => nested before (earlier.trans (List.prefix_append calls _))
      have room := nested (calls ++ [call]) (List.prefix_refl _)
      have move := (store.after calls).reusable_perform (Ne.symm kept.2)
      simp only [exchanges_append, exchanges_singleton, mappings_append_singleton,
        unmappings_append_singleton, after_append, after_singleton] at room ⊢
      rcases move with ⟨maps, unmaps, handle, pushed⟩ | ⟨maps, unmaps, popped⟩ |
        ⟨maps, unmaps, same⟩
      · refine ⟨handle :: top, by rw [pushed, below_top, List.cons_append], ?_⟩
        simp only [maps, unmaps, Bool.toNat_true, Bool.toNat_false, List.length_cons]
        omega
      · -- The call has mapped one more, so there was something on top.
        simp only [maps, unmaps, Bool.toNat_true, Bool.toNat_false] at room ⊢
        have nonempty : top ≠ [] := by
          rintro rfl
          rw [List.length_nil] at height
          omega
        refine ⟨top.tail, by rw [popped, below_top, List.tail_append_of_ne_nil nonempty], ?_⟩
        have positive := List.length_pos_iff.mpr nonempty
        rw [List.length_tail]
        omega
      · refine ⟨top, same.trans below_top, ?_⟩
        simp only [maps, unmaps, Bool.toNat_false]
        omega

/-! ## Many handles at once -/

theorem answers_append (store : Store) (before since : List Call) :
    store.answers (before ++ since) =
      store.answers before ++ (store.after before).answers since := by
  induction before generalizing store with
  | nil => rfl
  | cons call rest ih => exact congrArg (List.cons _) (ih (store.perform call).2)

theorem perform_free_of_mapped {handle : Handle} (other : handle ≠ .program)
    (mapped : (store.find? handle).isSome) :
    ∃ next, store.free handle = .ok next ∧ store.perform (.free handle) = (.ok .done, next) := by
  cases freed : store.free handle with
  | ok next => exact ⟨next, rfl, by simp only [perform, freed]⟩
  | error fault =>
      rcases free_eq_error_iff.mp freed with ⟨program, -⟩ | ⟨-, missing, -⟩
      · exact absurd program other
      · rw [missing] at mapped
        cases mapped

/-- Handles that are unmapped one after the other lie on the stack in the opposite order. -/
theorem free_all {handles : List Handle} (distinct : handles.Nodup)
    (mapped : ∀ handle ∈ handles, handle ≠ .program ∧ (store.find? handle).isSome) :
    store.answers (handles.map .free) = handles.map (fun _ => .ok .done) ∧
      (store.after (handles.map .free)).reusable = handles.reverse ++ store.reusable := by
  induction handles generalizing store with
  | nil => exact ⟨rfl, rfl⟩
  | cons handle rest ih =>
      obtain ⟨fresh, distinct⟩ := List.nodup_cons.mp distinct
      obtain ⟨other, found⟩ := mapped handle List.mem_cons_self
      obtain ⟨next, freed, done⟩ := perform_free_of_mapped other found
      have still_mapped : ∀ later ∈ rest, later ≠ .program ∧ (next.find? later).isSome := by
        intro later mem
        have different : later ≠ handle := ne_of_mem_of_not_mem mem fresh
        rw [find?_free freed, if_neg different]
        exact mapped later (List.mem_cons_of_mem handle mem)
      obtain ⟨answers, stack⟩ := ih distinct still_mapped
      obtain ⟨-, -, pushed⟩ := free_cases freed
      constructor
      · simp only [List.map_cons, Store.answers, done, answers]
      · have first : store.after ((handle :: rest).map .free) = next.after (rest.map .free) := by
          rw [List.map_cons, after, List.foldl_cons, done]
          rfl
        rw [first, stack, pushed, List.reverse_cons, List.append_assoc, List.singleton_append]

/-- Segments are mapped under the handles of the stack from its top on. -/
theorem allocate_all {handles below : List Handle} {lengths : List Nat}
    (stack : store.reusable = handles ++ below) (as_many : lengths.length = handles.length) :
    store.answers (lengths.map (.allocate · true)) =
      handles.map fun handle => .ok (.handle handle) := by
  induction handles generalizing store lengths with
  | nil =>
      obtain rfl := List.eq_nil_of_length_eq_zero as_many
      rfl
  | cons handle rest ih =>
      obtain ⟨length, lengths, rfl⟩ := List.exists_cons_of_length_eq_add_one as_many
      have answered : (store.perform (.allocate length true)).1 = .ok (.handle handle) :=
        perform_allocate_of_stack stack length true
      have kept : Call.allocate length true ≠ .release := nofun
      rcases store.reusable_perform kept with
        ⟨-, unmaps, -⟩ | ⟨-, -, popped⟩ | ⟨maps, -⟩
      · cases unmaps
      · rw [stack] at popped
        have rest_answered := ih popped (Nat.succ.inj as_many)
        rw [List.map_cons, List.map_cons, Store.answers]
        exact congrArg₂ List.cons answered rest_answered
      · rw [answered] at maps
        cases maps

/-- Handles are used again in the opposite order of their unmapping. After a handle was unmapped,
let any calls follow but no release, with never more mapped than unmapped among them and as much
of both in the end: the next segment that is mapped gets this handle. So handles that are unmapped
one after the other come back from the last to the first. -/
theorem last_unmapped_first_reused (history : List Call) :
    let store := (∅ : Store).after history
    (∀ (handle : Handle) (calls : List Call), handle ≠ .program → (store.find? handle).isSome →
      let freed := store.after [.free handle]
      .release ∉ calls →
      (∀ before, before <+: calls →
        mappings (freed.exchanges before) ≤ unmappings (freed.exchanges before)) →
      mappings (freed.exchanges calls) = unmappings (freed.exchanges calls) →
      ∀ length memory, ((freed.after calls).perform (.allocate length memory)).1 =
        if memory then .ok (.handle handle) else .error (.allocationFailed length)) ∧
    (∀ (handles : List Handle) (lengths : List Nat), handles.Nodup →
      (∀ handle ∈ handles, handle ≠ .program ∧ (store.find? handle).isSome) →
      lengths.length = handles.length →
      store.answers (handles.map .free ++ lengths.map (.allocate · true)) =
        handles.map (fun _ => .ok .done) ++
          handles.reverse.map fun handle => .ok (.handle handle)) := by
  intro store
  constructor
  · intro handle calls other mapped freed kept nested balanced length memory
    obtain ⟨next, free, done⟩ := perform_free_of_mapped other mapped
    have stack : freed.reusable = [] ++ handle :: store.reusable := by
      obtain ⟨-, -, rfl⟩ := free_cases free
      simp only [freed, after_singleton, done, List.nil_append]
    obtain ⟨top, below_top, height⟩ := reusable_after stack kept (by simpa using nested)
    obtain rfl : top = [] := List.eq_nil_of_length_eq_zero (by simpa [balanced] using height)
    exact perform_allocate_of_stack below_top length memory
  · intro handles lengths distinct mapped as_many
    obtain ⟨unmapped, stack⟩ := free_all distinct mapped
    rw [answers_append, unmapped, allocate_all stack (by simpa using as_many)]

/-- A handle is unmapped, and used again after two more were. In between a segment is to be unmapped
twice, memory is missing once, and the program becomes a copy of a segment that was written to. -/
theorem last_unmapped_first_reused_nested :
    let history : List Call := [.allocate 1, .allocate 2, .allocate 3, .allocate 4]
    let store := (∅ : Store).after history
    let calls : List Call := [.free ⟨2⟩, .free ⟨2⟩, .write ⟨3⟩ 1 7, .free ⟨3⟩, .allocate 8 false,
      .allocate 5, .install ⟨3⟩, .allocate 6]
    let freed := store.after [.free ⟨1⟩]
    (store.find? ⟨1⟩).isSome ∧ .release ∉ calls ∧
    (∀ before, before <+: calls →
      mappings (freed.exchanges before) ≤ unmappings (freed.exchanges before)) ∧
    mappings (freed.exchanges calls) = 2 ∧ unmappings (freed.exchanges calls) = 2 ∧
    ((freed.after calls).perform (.allocate 9)).1 = .ok (.handle ⟨1⟩) := by
  intro history store calls freed
  have mapped : (store.find? ⟨1⟩).isSome := by decide +kernel
  have kept : .release ∉ calls := by decide
  have nested : ∀ before, before <+: calls →
      mappings (freed.exchanges before) ≤ unmappings (freed.exchanges before) := by
    have all : ∀ before ∈ calls.inits,
        mappings (freed.exchanges before) ≤ unmappings (freed.exchanges before) := by
      decide +kernel
    intro before earlier
    exact all before ((List.mem_inits before calls).mpr earlier)
  have mapped_two : mappings (freed.exchanges calls) = 2 := by decide +kernel
  have unmapped_two : unmappings (freed.exchanges calls) = 2 := by decide +kernel
  refine ⟨mapped, kept, nested, mapped_two, unmapped_two, ?_⟩
  have reused := (last_unmapped_first_reused history).1 ⟨1⟩ calls (by decide) mapped kept nested
    (mapped_two.trans unmapped_two.symm) 9 true
  exact reused

end Store

end UniversalMachine
