import UniversalMachine.Proofs.StoreInvariant
import Mathlib.Logic.Function.Basic

/-!
# Retelling what is mapped

Whoever learns of a store by its events alone can keep a list of the handles that are mapped and of
the lengths of their segments. Each event agrees with the list as it stands, and brings it to what
is mapped afterwards.
-/

namespace UniversalMachine

namespace Store

/-- The handles that are mapped, with the lengths of their segments. -/
abbrev Lengths := Handle → Option Nat

def lengths (store : Store) : Lengths :=
  fun handle => (store.find? handle).map Array.size

/-- What is mapped after an event. There is no answer if the event cannot have happened: a handle is
mapped that is mapped already, a handle is unmapped that is not mapped or is that of the program, or
a segment is installed that does not have the length told. -/
def Event.retell (lengths : Lengths) : Event → Option Lengths
  | .mapped handle length =>
    if lengths handle = none then some (Function.update lengths handle (some length)) else none
  | .unmapped handle =>
    if handle ≠ .program ∧ lengths handle ≠ none then some (Function.update lengths handle none)
    else none
  | .installed handle length =>
    if lengths handle = some length then some (Function.update lengths .program (some length))
    else none

theorem lengths_empty : (∅ : Store).lengths = fun _ => none :=
  rfl

variable {store next : Store} {handle : Handle}

theorem retell_mapped (wf : store.WellFormed) {length : Nat} {memory : Bool}
    (allocated : store.allocate length memory = .ok (handle, next)) :
    Event.retell store.lengths (.mapped handle length) = some next.lengths := by
  have fresh : store.lengths handle = none := by
    rw [lengths, wf.find?_allocated allocated, Option.map_none]
  rw [Event.retell, if_pos fresh, Option.some_inj]
  funext other
  rw [lengths, find?_allocate allocated fun reused mem => wf.index_lt mem, Function.update_apply]
  split
  · rw [Option.map_some, Array.size_replicate]
  · rfl

theorem retell_unmapped (freed : store.free handle = .ok next) :
    Event.retell store.lengths (.unmapped handle) = some next.lengths := by
  obtain ⟨other, ⟨words, found⟩, -⟩ := free_cases freed
  have mapped : store.lengths handle ≠ none := by
    rw [lengths, found]
    nofun
  rw [Event.retell, if_pos ⟨other, mapped⟩, Option.some_inj]
  funext other
  rw [lengths, find?_free freed, Function.update_apply]
  split <;> rfl

/-- Writing maps nothing and changes no length. -/
theorem lengths_write {offset word : Word} (written : store.write handle offset word = .ok next) :
    next.lengths = store.lengths := by
  funext other
  rw [lengths, lengths, find?_write written]
  split
  · next same =>
      rw [same]
      cases store.find? handle with
      | none => rfl
      | some words => simp
  · rfl

/-- The segment that is installed is another one than the program, so it stays as long as it was. -/
theorem retell_installed (other : handle ≠ .program)
    (installed : store.install handle = .ok next) :
    Event.retell store.lengths (.installed handle ((next.find? handle).elim 0 Array.size)) =
      some next.lengths := by
  obtain ⟨words, found, -⟩ := install_cases installed
  have after := find?_install installed
  have length : (next.find? handle).elim 0 Array.size = words.size := by
    rw [after, if_neg other, found, Option.elim_some]
  have told : store.lengths handle = some words.size := by
    rw [lengths, found, Option.map_some]
  rw [length, Event.retell, if_pos told, Option.some_inj]
  funext any
  rw [lengths, after, found, Function.update_apply]
  split <;> rfl

end Store

end UniversalMachine
