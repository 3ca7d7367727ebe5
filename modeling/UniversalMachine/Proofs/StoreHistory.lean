import UniversalMachine.Proofs.StoreInvariant
import Mathlib.Data.List.Induction

/-!
# What the history of a store says about it

A history of calls together with its answers decides what the store holds. A handle names
the segment that the latest call gave it: zeros if it was mapped, a copy of the source if it
is the program and something was installed. Since then only the words written to it count.
-/

namespace UniversalMachine

namespace Store

theorem after_append (store : Store) (before since : List Call) :
    store.after (before ++ since) = (store.after before).after since :=
  List.foldl_append

theorem after_singleton (store : Store) (call : Call) :
    store.after [call] = (store.perform call).2 :=
  rfl

/-- A call and the answer to it. -/
abbrev Exchange := Call × Except Fault Answer

/-- The calls of a history, each with its answer. -/
def exchanges (store : Store) (history : List Call) : List Exchange :=
  history.zip (store.answers history)

theorem exchanges_append (store : Store) (before since : List Call) :
    store.exchanges (before ++ since) =
      store.exchanges before ++ (store.after before).exchanges since := by
  induction before generalizing store with
  | nil => rfl
  | cons call rest ih => exact congrArg (List.cons _) (ih (store.perform call).2)

theorem exchanges_singleton (store : Store) (call : Call) :
    store.exchanges [call] = [(call, (store.perform call).1)] :=
  rfl

/-! ## The words of a segment -/

/-- The word that an exchange put into a cell. -/
def written? (handle : Handle) (offset : Word) : Exchange → Option Word
  | (.write target position word, .ok .done) =>
    if target = handle ∧ position = offset then some word else none
  | _ => none

/-- The word that was put into a cell last. -/
def lastWritten? (handle : Handle) (offset : Word) (exchanges : List Exchange) : Option Word :=
  exchanges.reverse.findSome? (written? handle offset)

theorem lastWritten?_append_singleton (handle : Handle) (offset : Word)
    (exchanges : List Exchange) (exchange : Exchange) :
    lastWritten? handle offset (exchanges ++ [exchange]) =
      (written? handle offset exchange).or (lastWritten? handle offset exchanges) := by
  rw [lastWritten?, List.reverse_append, List.reverse_singleton, List.singleton_append,
    List.findSome?_cons]
  cases written? handle offset exchange <;> rfl

/-- A call gives a handle a segment that starts out with the given words: it maps the handle, or
it makes a copy of another segment the program. -/
inductive Renews (store : Store) : Call → Handle → Segment → Prop where
  | mapped {length : Nat} {memory : Bool} {handle : Handle}
      (answered : (store.perform (.allocate length memory)).1 = .ok (.handle handle)) :
      Renews store (.allocate length memory) handle (Array.replicate length 0)
  | installed {source : Handle} {words : Segment} (other : source ≠ .program)
      (answered : (store.perform (.install source)).1 = .ok .done)
      (found : store.segment source = .ok words) :
      Renews store (.install source) .program words

/-- A call leaves a handle its segment: the words are what they were, but for the one that the
call wrote. -/
structure Keeps (store : Store) (call : Call) (handle : Handle) (words : Segment) : Prop where
  not_renewed : ∀ start, ¬ Renews store call handle start
  from_before : ∃ old, store.find? handle = some old ∧ words.size = old.size ∧
    ∀ offset : Word, words[offset.toNat]? =
      (written? handle offset (call, (store.perform call).1)).or old[offset.toNat]?

variable {store : Store} {handle : Handle} {words : Segment}

/-- Nothing is written by a call after which the handle names what it named before. -/
theorem Keeps.of_find? {call : Call} (not_renewed : ∀ start, ¬ Renews store call handle start)
    (nothing : ∀ offset, written? handle offset (call, (store.perform call).1) = none)
    (found : store.find? handle = some words) : Keeps store call handle words :=
  ⟨not_renewed, words, found, rfl, fun offset => by rw [nothing, Option.none_or]⟩

/-- A refused call keeps everything. -/
theorem Keeps.of_refused {call : Call} {fault : Fault}
    (refused : store.perform call = (.error fault, store))
    (found : (store.perform call).2.find? handle = some words) :
    Keeps store call handle words := by
  rw [refused] at found
  refine .of_find? ?_ ?_ found
  · intro start renewed
    cases renewed with
    | mapped answered => simp [refused] at answered
    | installed other answered source => simp [refused] at answered
  · intro offset
    rw [refused]
    cases call <;> rfl

theorem renews_or_keeps_allocate (wf : store.WellFormed) {length : Nat} {memory : Bool}
    (found : (store.perform (.allocate length memory)).2.find? handle = some words) :
    Renews store (.allocate length memory) handle words ∨
      Keeps store (.allocate length memory) handle words := by
  rcases store.perform_allocate length memory with
    ⟨fault, refused⟩ | ⟨fresh, next, allocated, done⟩
  · exact .inr (.of_refused refused found)
  · rw [done, find?_allocate allocated (fun reused h => wf.index_lt h)] at found
    split at found
    · next same =>
        cases found
        exact .inl (.mapped (by rw [done, same]))
    · next different =>
        refine .inr (.of_find? ?_ (fun _ => rfl) found)
        rintro start ⟨answered⟩
        rw [done] at answered
        cases answered
        exact different rfl

theorem keeps_free {freed : Handle}
    (found : (store.perform (.free freed)).2.find? handle = some words) :
    Keeps store (.free freed) handle words := by
  rcases store.perform_free freed with ⟨fault, refused⟩ | ⟨next, success, done⟩
  · exact .of_refused refused found
  · rw [done, find?_free success] at found
    split at found
    · cases found
    · refine .of_find? ?_ (fun _ => rfl) found
      intro start renewed
      cases renewed

theorem keeps_write {target : Handle} {position word : Word}
    (found : (store.perform (.write target position word)).2.find? handle = some words) :
    Keeps store (.write target position word) handle words := by
  rcases store.perform_write target position word with ⟨fault, refused⟩ | ⟨next, success, done⟩
  · exact .of_refused refused found
  · have not_renewed : ∀ start, ¬ Renews store (.write target position word) handle start := by
      intro start renewed
      cases renewed
    rw [done, find?_write success] at found
    split at found
    · next same =>
        subst same
        obtain ⟨old, before, inside, -⟩ := write_cases success
        rw [before, Option.map_some, Option.some.injEq] at found
        subst found
        refine ⟨not_renewed, old, before, Array.size_setIfInBounds, ?_⟩
        intro offset
        rw [done, written?, Array.getElem?_setIfInBounds]
        by_cases here : position = offset
        · simp [here ▸ inside, here]
        · simp [here, UInt32.toNat_inj]
    · next different =>
        refine .of_find? not_renewed ?_ found
        intro offset
        simp [done, written?, Ne.symm different]

theorem renews_or_keeps_install {source : Handle}
    (found : (store.perform (.install source)).2.find? handle = some words) :
    Renews store (.install source) handle words ∨
      Keeps store (.install source) handle words := by
  rcases store.perform_install source with ⟨fault, refused⟩ | ⟨next, success, done⟩
  · exact .inr (.of_refused refused found)
  · rw [done, find?_install success] at found
    by_cases renewed : handle = .program ∧ source ≠ .program
    · obtain ⟨rfl, other⟩ := renewed
      rw [if_pos rfl] at found
      exact .inl (.installed other (by rw [done]) (segment_of_find? found))
    · refine .inr (.of_find? ?_ (fun _ => rfl) ?_)
      · intro start given
        cases given with
        | installed other => exact renewed ⟨rfl, other⟩
      · split at found
        · next same =>
            have itself : source = .program := by
              by_contra other
              exact renewed ⟨same, other⟩
            rw [same, ← itself, found]
        · exact found

/-- What a handle names after a call, the call gave it or left it. -/
theorem renews_or_keeps (wf : store.WellFormed) (call : Call)
    (found : (store.perform call).2.find? handle = some words) :
    Renews store call handle words ∨ Keeps store call handle words := by
  cases call with
  | allocate length memory => exact renews_or_keeps_allocate wf found
  | install source => exact renews_or_keeps_install found
  | free freed => exact .inr (keeps_free found)
  | write target position word => exact .inr (keeps_write found)
  | release => simp [perform, find?, EmptyCollection.emptyCollection] at found
  | read | length | segment | program | liveCount =>
      refine .inr (.of_find? ?_ (fun _ => rfl) found)
      intro start renewed
      cases renewed

/-! ## From one call to a history -/

/-- The latest call of a history that gave a handle its segment, with the calls before and after
it and the words the segment started out with. -/
structure LastRenewed (history : List Call) (handle : Handle) (before : List Call) (call : Call)
    (since : List Call) (start : Segment) : Prop where
  split : history = before ++ call :: since
  renewed : Renews ((∅ : Store).after before) call handle start
  latest : ∀ between later rest, since = between ++ later :: rest →
    ∀ words, ¬ Renews ((∅ : Store).after (before ++ call :: between)) later handle words

namespace LastRenewed

variable {history before since : List Call} {call : Call} {start : Segment}

theorem of_renews (renewed : Renews ((∅ : Store).after history) call handle start) :
    LastRenewed (history ++ [call]) handle history call [] start where
  split := rfl
  renewed := renewed
  latest := by simp

theorem append_singleton (renewed : LastRenewed history handle before call since start)
    {next : Call} (kept : ∀ words, ¬ Renews ((∅ : Store).after history) next handle words) :
    LastRenewed (history ++ [next]) handle before call (since ++ [next]) start where
  split := by rw [renewed.split, List.append_assoc, List.cons_append]
  renewed := renewed.renewed
  latest := by
    intro between later rest parts
    rcases List.eq_nil_or_concat rest with rfl | ⟨rest, last, rfl⟩
    · obtain ⟨rfl, same⟩ := List.append_inj' parts rfl
      cases same
      rwa [← renewed.split]
    · have shorter : since ++ [next] = (between ++ later :: rest) ++ [last] := by
        rw [parts, List.concat_eq_append, List.append_assoc, List.cons_append]
      exact renewed.latest between later rest (List.append_inj' shorter rfl).1

end LastRenewed

/-- The induction is on the end of the history: the last call renewed the segment, or it left
what the calls before it made. -/
theorem words_of_history (history : List Call) (handle : Handle) {words : Segment}
    (found : ((∅ : Store).after history).find? handle = some words) :
    ∃ before call since start, LastRenewed history handle before call since start ∧
      words.size = start.size ∧
      ∀ offset : Word, words[offset.toNat]? =
        (lastWritten? handle offset
          (((∅ : Store).after (before ++ [call])).exchanges since)).or start[offset.toNat]? := by
  induction history using List.reverseRecOn generalizing words with
  | nil => simp [after, find?, EmptyCollection.emptyCollection] at found
  | append_singleton history next ih =>
      have wf := wellFormed_after history
      rw [after_append, after_singleton] at found
      rcases renews_or_keeps wf next found with renewed | ⟨kept, old, before_found, size, cells⟩
      · exact ⟨history, next, [], words, .of_renews renewed, rfl, fun offset => rfl⟩
      · obtain ⟨before, call, since, start, last, old_size, old_cells⟩ := ih before_found
        refine ⟨before, call, since ++ [next], start, last.append_singleton kept,
          size.trans old_size, ?_⟩
        intro offset
        have here : ((∅ : Store).after (before ++ [call])).after since =
            (∅ : Store).after history := by
          rw [← after_append, last.split, List.append_assoc, List.singleton_append]
        rw [cells, old_cells, exchanges_append, here, exchanges_singleton,
          lastWritten?_append_singleton, Option.or_assoc]

/-- The history decides what a mapped handle names. Its length is that of the latest call that
gave the handle its segment: the length that was asked for, or for the program the length of
the source that was installed since. A cell holds the word that was last written to it since
that call; if there was none it holds what the segment started out with, zero or what the
source held at the time. -/
theorem read_of_history (history : List Call) (handle : Handle)
    (mapped : (((∅ : Store).after history).find? handle).isSome) :
    ∃ before call since start, LastRenewed history handle before call since start ∧
      ((∅ : Store).after history).length handle = .ok start.size ∧
      ∀ offset : Word, ∀ inside : offset.toNat < start.size,
        ((∅ : Store).after history).read handle offset =
          .ok ((lastWritten? handle offset
            (((∅ : Store).after (before ++ [call])).exchanges since)).getD
              start[offset.toNat]) := by
  obtain ⟨words, found⟩ := Option.isSome_iff_exists.mp mapped
  obtain ⟨before, call, since, start, last, size, cells⟩ := words_of_history history handle found
  refine ⟨before, call, since, start, last, ?_, ?_⟩
  · rw [length_of_find? found, size]
  · intro offset inside
    apply read_of_getElem? found
    rw [cells, Array.getElem?_eq_getElem inside, Option.or_some]

/-- The program after it became a copy of segment 1, whose own words change later on. -/
theorem read_of_history_installed :
    let history : List Call := [.allocate 1, .allocate 2, .write ⟨1⟩ 0 7, .install ⟨1⟩,
      .write ⟨1⟩ 0 9, .write .program 1 8, .free ⟨1⟩, .allocate 5]
    (((∅ : Store).after history).find? .program).isSome ∧
    ∃ before call since start, LastRenewed history .program before call since start ∧
      ((∅ : Store).after history).length .program = .ok start.size ∧
      ∀ offset : Word, ∀ inside : offset.toNat < start.size,
        ((∅ : Store).after history).read .program offset =
          .ok ((lastWritten? .program offset
            (((∅ : Store).after (before ++ [call])).exchanges since)).getD
              start[offset.toNat]) := by
  intro history
  have mapped : (((∅ : Store).after history).find? .program).isSome := by decide +kernel
  exact ⟨mapped, read_of_history history .program mapped⟩

/-! ## The handles that wait to be used again -/

/-- The handles that wait to be used again after one more exchange, the latest first. -/
def pendingAfter (waiting : List Handle) : Exchange → List Handle
  | (.free handle, .ok .done) => handle :: waiting
  | (.allocate _ _, .ok (.handle handle)) => waiting.erase handle
  | (.release, _) => []
  | _ => waiting

/-- The handles that were unmapped and not mapped again since, the latest first. -/
def pending (exchanges : List Exchange) : List Handle :=
  exchanges.foldl pendingAfter []

theorem pendingAfter_perform (store : Store) (call : Call) :
    pendingAfter store.reusable (call, (store.perform call).1) =
      (store.perform call).2.reusable := by
  cases call with
  | allocate length memory =>
      rcases store.perform_allocate length memory with
        ⟨fault, refused⟩ | ⟨fresh, next, allocated, done⟩
      · rw [refused]
        rfl
      · rw [done]
        obtain ⟨rest, stack, rfl⟩ | ⟨stack, -, -, rfl⟩ := allocate_cases allocated
        · simp [pendingAfter, stack]
        · rw [stack]
          rfl
  | free handle =>
      rcases store.perform_free handle with ⟨fault, refused⟩ | ⟨next, freed, done⟩
      · rw [refused]
        rfl
      · rw [done]
        obtain ⟨-, -, rfl⟩ := free_cases freed
        rfl
  | write handle offset word =>
      rcases store.perform_write handle offset word with ⟨fault, refused⟩ | ⟨next, written, done⟩
      · rw [refused]
        rfl
      · rw [done]
        obtain ⟨words, -, -, rfl⟩ := write_cases written
        rfl
  | install handle =>
      rcases store.perform_install handle with ⟨fault, refused⟩ | ⟨next, installed, done⟩
      · rw [refused]
        rfl
      · rw [done]
        obtain ⟨words, -, ⟨-, rfl⟩ | ⟨-, rfl⟩⟩ := install_cases installed <;> rfl
  | release => rfl
  | read | length | segment | program | liveCount => rfl

/-- The stack of a store holds the handles that wait to be used again. -/
theorem reusable_of_history (history : List Call) :
    ((∅ : Store).after history).reusable = pending ((∅ : Store).exchanges history) := by
  induction history using List.reverseRecOn with
  | nil => rfl
  | append_singleton history call ih =>
      rw [after_append, after_singleton, ← pendingAfter_perform, ih, exchanges_append,
        exchanges_singleton, pending, pending, List.foldl_append]
      rfl

end Store

end UniversalMachine
