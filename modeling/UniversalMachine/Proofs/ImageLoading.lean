import UniversalMachine.Machine.Run
import UniversalMachine.Proofs.ImageWords
import UniversalMachine.Proofs.StoreInvariant

/-!
# What loading an image makes

Loading writes the words of the image one after the other over a segment of zeros. What comes
out is a store with these words as its program and nothing else.
-/

namespace UniversalMachine

/-- The store that has a program and nothing else. -/
def Store.ofProgram (program : Segment) : Store :=
  ⟨#[some program], []⟩

namespace Store

theorem find?_ofProgram (program : Segment) (handle : Handle) :
    (ofProgram program).find? handle = if handle = .program then some program else none := by
  simp only [ofProgram, find?, ← Handle.index_inj, Handle.index_program]
  cases handle.index with
  | zero => simp
  | succ i => simp

theorem allocate_empty (length : Nat) :
    (∅ : Store).allocate length true = .ok (.program, ofProgram (Array.replicate length 0)) :=
  rfl

theorem write_ofProgram {program : Segment} {offset word : Word}
    (inside : offset.toNat < program.size) :
    (ofProgram program).write .program offset word =
      .ok (ofProgram (program.setIfInBounds offset.toNat word)) := by
  have found : (ofProgram program).find? .program = some program := by
    rw [find?_ofProgram, if_pos rfl]
  rw [write, length_of_find? found]
  simp only [if_pos inside]
  rfl

/-- Words that fill a segment up to its end take the place of what was there. -/
theorem fillFrom_ofProgram (start words rest : List Word) (same : rest.length = words.length)
    (short : start.length + words.length < UInt32.size) :
    (ofProgram (start ++ rest).toArray).fillFrom .program start.length words =
      (.ok (), ofProgram (start ++ words).toArray) := by
  -- The words before the current one are in place, and those behind it are still the old ones.
  induction words generalizing start rest with
  | nil =>
      obtain rfl := List.eq_nil_of_length_eq_zero same
      rfl
  | cons word words ih =>
      obtain ⟨old, rest, rfl⟩ := List.exists_cons_of_length_eq_add_one same
      have offset : (UInt32.ofNat start.length).toNat = start.length := by
        apply UInt32.toNat_ofNat_of_lt'
        omega
      have inside : start.length < (start ++ old :: rest).toArray.size := by simp
      have written : (start ++ old :: rest).toArray.setIfInBounds start.length word =
          (start ++ [word] ++ rest).toArray := by simp
      rw [fillFrom, write_ofProgram (offset.symm ▸ inside), offset, written]
      calc
        (ofProgram (start ++ [word] ++ rest).toArray).fillFrom .program (start.length + 1) words =
            (ofProgram (start ++ [word] ++ rest).toArray).fillFrom .program
              (start ++ [word]).length words := by rw [List.length_append, List.length_singleton]
        _ = (.ok (), ofProgram (start ++ [word] ++ words).toArray) := by
          apply ih (start ++ [word]) rest (by simpa using same)
          simp only [List.length_append, List.length_cons, List.length_nil] at short ⊢
          omega
        _ = (.ok (), ofProgram (start ++ word :: words).toArray) := by
          rw [List.append_assoc, List.singleton_append]

end Store

namespace Image

theorem install_of_lt {words : Array Word} (short : words.size < wordLimit) :
    install words true =
      (.ok (.ofProgram words), [.store (.mapped .program words.size), .loaded words.size]) := by
  have filled : (Store.ofProgram (Array.replicate words.size 0)).fill .program words.toList =
      (.ok (), .ofProgram words) := by
    have from_zeros := Store.fillFrom_ofProgram [] words.toList (List.replicate words.size 0)
      (by simp) (by simpa [wordLimit] using short)
    simpa [Store.fill] using from_zeros
  rw [install, if_neg (Nat.not_le.mpr short), Store.allocate_empty]
  simp only [filled]

/-- Words are installed if there are few enough of them, and memory for them. Otherwise nothing has
happened. -/
theorem install_ways (words : Array Word) (memory : Bool) :
    (∃ fault, install words memory = (.error fault, [])) ∨
      (words.size < wordLimit ∧ install words memory =
        (.ok (.ofProgram words), [.store (.mapped .program words.size), .loaded words.size])) := by
  by_cases short : words.size < wordLimit
  · cases memory with
    | false =>
        left
        refine ⟨.allocationFailed words.size, ?_⟩
        rw [install, if_neg (Nat.not_le.mpr short), Store.allocate_of_no_memory]
    | true => exact .inr ⟨short, install_of_lt short⟩
  · left
    refine ⟨.programTooLarge words.size, ?_⟩
    rw [install, if_pos (Nat.le_of_not_lt short)]

/-- An image that loads gives a store with its words as the program and nothing else, and there
are few enough of them for an offset to address each. -/
theorem load_eq_ok {image : List Delivery} {memory : Bool} {store : Store} {events : List Event}
    (loaded : load image memory = (.ok store, events)) :
    ∃ bytes, Delivery.readAll image = .ok bytes ∧ (words bytes).size < wordLimit ∧
      store = .ofProgram (words bytes) := by
  unfold load at loaded
  cases read : Delivery.readAll image with
  | error error => simp [read] at loaded
  | ok bytes =>
      simp only [read, pack_eq, Prod.mk.injEq] at loaded
      refine ⟨bytes, rfl, ?_⟩
      rcases install_ways (words bytes) memory with ⟨fault, refused⟩ | ⟨short, installed⟩
      · rw [refused] at loaded
        cases loaded.1
      · rw [installed] at loaded
        exact ⟨short, (Except.ok.inj loaded.1).symm⟩

/-- Loading logs how many bytes were dropped, if any were. A program that is loaded is the first and
only segment to be mapped, and if none is loaded nothing else is logged. -/
theorem load_ways (image : List Delivery) (memory : Bool) :
    ∃ noted : List Event, (∀ event ∈ noted, ∃ bytes, event = .dropped bytes) ∧
      ((∃ fault, load image memory = (.error fault, noted)) ∨
        ∃ program : Segment, load image memory =
          (.ok (.ofProgram program),
            noted ++ [.store (.mapped .program program.size), .loaded program.size])) := by
  cases read : Delivery.readAll image with
  | error error =>
      exact ⟨[], nofun, .inl ⟨.channel error, by rw [load, read]⟩⟩
  | ok bytes =>
      refine ⟨if dropped bytes = 0 then [] else [.dropped (dropped bytes)], ?_, ?_⟩
      · intro event noted
        split at noted
        · cases noted
        · exact ⟨_, List.mem_singleton.mp noted⟩
      · rw [load, read]
        simp only [pack_eq]
        rcases install_ways (words bytes) memory with ⟨fault, refused⟩ | ⟨-, installed⟩
        · left
          refine ⟨fault, ?_⟩
          rw [refused]
        · right
          refine ⟨words bytes, ?_⟩
          rw [installed]
          split <;> rfl

end Image

theorem Machine.ofImage_of_load {image : List Delivery} {config : Config} {store : Store}
    {events : List Event}
    (loaded : Image.load image (config.hasMemory 0) = (.ok store, events)) (channels : Channels) :
    ofImage image channels config =
      (.ok { store, channels, config, log := events.toArray }, events) := by
  rw [ofImage, loaded]
  rfl

/-- A loaded machine is configured as it was asked for, and all else is as it is at first. -/
theorem Machine.ofImage_eq_ok {image : List Delivery} {channels : Channels} {config : Config}
    {machine : Machine} {events : List Event}
    (loaded : ofImage image channels config = (.ok machine, events)) :
    ∃ store, Image.load image (config.hasMemory 0) = (.ok store, events) ∧
      machine = { store, channels, config, log := events.toArray } := by
  unfold ofImage at loaded
  generalize Image.load image (config.hasMemory 0) = result at loaded
  obtain ⟨result, noted⟩ := result
  cases result with
  | error fault => simp [Except.map] at loaded
  | ok store =>
      simp only [Except.map, Prod.mk.injEq, Except.ok.injEq] at loaded
      obtain ⟨rfl, rfl⟩ := loaded
      exact ⟨store, rfl, rfl⟩

theorem Machine.ofImage_fresh {image : List Delivery} {channels : Channels} {config : Config}
    {machine : Machine} {events : List Event}
    (loaded : ofImage image channels config = (.ok machine, events)) :
    machine.status = .running ∧ machine.profile = .empty := by
  obtain ⟨store, -, rfl⟩ := ofImage_eq_ok loaded
  exact ⟨rfl, rfl⟩

end UniversalMachine
