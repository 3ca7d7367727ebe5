import UniversalMachine.Fault

/-!
# The segment store

The memory of the machine is a table of segments, each a fixed number of words. The handle
of an unmapped segment goes onto a stack and is handed out again, the latest first, before
the table grows. Segment 0 is the program: it can be overwritten by a copy of another
segment but never unmapped.
-/

namespace UniversalMachine

/-- The words of a segment. -/
abbrev Segment := Array Word

/-- Two stores are equal if they have the same words and will hand out the same handles. -/
structure Store where
  /-- The segments by the index of their handles; an unmapped handle leaves a gap. -/
  table : Array (Option Segment)
  /-- The unmapped handles, the latest first. -/
  reusable : List Handle
deriving DecidableEq

namespace Store

instance : EmptyCollection Store :=
  ⟨⟨#[], []⟩⟩

/-- No more handles than this can be told apart. -/
def handleCount : Nat :=
  UInt32.size

/-- The words of a segment, if the handle is mapped. -/
def find? (store : Store) (handle : Handle) : Option Segment :=
  store.table[handle.index]?.join

/-- The words of a mapped segment. -/
def segment (store : Store) (handle : Handle) : Except Fault Segment :=
  match store.find? handle with
  | some words => .ok words
  | none => .error (.unmappedSegment handle)

/-- The number of words of a mapped segment. -/
def length (store : Store) (handle : Handle) : Except Fault Nat :=
  Array.size <$> store.segment handle

/-- The words of the program. -/
def program (store : Store) : Except Fault Segment :=
  store.segment .program

/-- The number of mapped segments. -/
def liveCount (store : Store) : Nat :=
  store.table.countP Option.isSome

/-- Maps a segment of zeros under the handle unmapped last, or under a new one if every
unmapped handle is in use again. Whether there is memory for its words is not for the store to
decide. -/
def allocate (store : Store) (length : Nat) (memory : Bool) : Except Fault (Handle × Store) :=
  if memory then
    match store with
    | ⟨table, handle :: rest⟩ =>
      .ok (handle, ⟨table.setIfInBounds handle.index (some (Array.replicate length 0)), rest⟩)
    | ⟨table, []⟩ =>
      if table.size < handleCount then
        .ok (.ofIndex table.size, ⟨table.push (some (Array.replicate length 0)), []⟩)
      else .error .handlesExhausted
  else .error (.allocationFailed length)

/-- Unmaps a segment other than the program. -/
def free (store : Store) (handle : Handle) : Except Fault Store :=
  if handle = .program then .error .unmapSegmentZero
  else
    match store.find? handle with
    | some _ =>
      .ok { table := store.table.setIfInBounds handle.index none,
            reusable := handle :: store.reusable }
    | none => .error (.unmappedSegment handle)

/-- The word at an offset of a mapped segment. -/
def read (store : Store) (handle : Handle) (offset : Word) : Except Fault Word :=
  match store.segment handle with
  | .error fault => .error fault
  | .ok words =>
    match words[offset.toNat]? with
    | some word => .ok word
    | none => .error (.offsetOutOfBounds handle offset words.size)

/-- Overwrites the word at an offset of a mapped segment. -/
def write (store : Store) (handle : Handle) (offset word : Word) : Except Fault Store :=
  match store.length handle with
  | .error fault => .error fault
  | .ok length =>
    if offset.toNat < length then
      .ok { store with
        table := store.table.modify handle.index
          (Option.map fun words => words.setIfInBounds offset.toNat word) }
    else .error (.offsetOutOfBounds handle offset length)

/-- Makes a copy of a mapped segment the program. The program itself can be named too, and
then stays as it is. -/
def install (store : Store) (handle : Handle) : Except Fault Store :=
  match store.segment handle with
  | .error fault => .error fault
  | .ok words =>
    if handle = .program then .ok store
    else if store.table.isEmpty then .error (.unmappedSegment .program)
    else .ok { store with table := store.table.setIfInBounds 0 (some words) }

/-- Overwrites consecutive words from an offset on, up to the first that cannot be written. -/
def fillFrom (store : Store) (handle : Handle) (offset : Nat) :
    List Word → Except Fault Unit × Store
  | [] => (.ok (), store)
  | word :: rest =>
    match store.write handle (UInt32.ofNat offset) word with
    | .ok store => fillFrom store handle (offset + 1) rest
    | .error fault => (.error fault, store)

/-- Overwrites the words of a segment from its start. -/
def fill (store : Store) (handle : Handle) (words : List Word) : Except Fault Unit × Store :=
  store.fillFrom handle 0 words

theorem find?_eq_some_iff {store : Store} {handle : Handle} {words : Segment} :
    store.find? handle = some words ↔ store.table[handle.index]? = some (some words) := by
  simp [find?, Option.join_eq_some_iff]

theorem index_lt_of_find? {store : Store} {handle : Handle} {words : Segment}
    (found : store.find? handle = some words) : handle.index < store.table.size :=
  (Array.getElem?_eq_some_iff.mp (find?_eq_some_iff.mp found)).1

theorem nonempty_of_find? {store : Store} {handle : Handle} {words : Segment}
    (found : store.find? handle = some words) : store.table ≠ #[] :=
  Array.size_pos_iff.mp (Nat.zero_lt_of_lt (index_lt_of_find? found))

theorem segment_of_find? {store : Store} {handle : Handle} {words : Segment}
    (found : store.find? handle = some words) : store.segment handle = .ok words := by
  rw [segment, found]

theorem segment_of_unmapped {store : Store} {handle : Handle}
    (missing : store.find? handle = none) :
    store.segment handle = .error (.unmappedSegment handle) := by
  rw [segment, missing]

theorem segment_eq_ok_iff {store : Store} {handle : Handle} {words : Segment} :
    store.segment handle = .ok words ↔ store.find? handle = some words := by
  unfold segment
  cases store.find? handle <;> simp

theorem length_of_find? {store : Store} {handle : Handle} {words : Segment}
    (found : store.find? handle = some words) : store.length handle = .ok words.size := by
  rw [length, segment_of_find? found]
  rfl

theorem length_of_unmapped {store : Store} {handle : Handle}
    (missing : store.find? handle = none) :
    store.length handle = .error (.unmappedSegment handle) := by
  rw [length, segment_of_unmapped missing]
  rfl

theorem read_of_getElem? {store : Store} {handle : Handle} {words : Segment}
    (found : store.find? handle = some words) {offset word : Word}
    (cell : words[offset.toNat]? = some word) : store.read handle offset = .ok word := by
  rw [read, segment_of_find? found]
  simp only [cell]

/-- Any mapped segment can be installed. -/
theorem install_of_find? {store : Store} {handle : Handle} {words : Segment}
    (found : store.find? handle = some words) : ∃ next, store.install handle = .ok next := by
  simp only [install, segment_of_find? found, Array.isEmpty_iff, nonempty_of_find? found,
    if_false]
  split
  · exact ⟨store, rfl⟩
  · exact ⟨_, rfl⟩

/-! ## What a request comes to -/

/-- Changing an entry in place is replacing it. -/
theorem modify_eq_setIfInBounds {α : Type} {entries : Array α} {i : Nat} {old : α}
    (entry : entries[i]? = some old) (f : α → α) :
    entries.modify i f = entries.setIfInBounds i (f old) := by
  obtain ⟨inside, rfl⟩ := Array.getElem?_eq_some_iff.mp entry
  apply Array.ext_getElem?
  intro j
  rw [Array.getElem?_modify, Array.getElem?_setIfInBounds]
  by_cases same : i = j
  · subst same
    simp [inside]
  · simp [same]

section Equations

variable {store : Store} {handle : Handle}

theorem allocate_of_no_memory (store : Store) (length : Nat) :
    store.allocate length false = .error (.allocationFailed length) :=
  rfl

theorem allocate_of_stack {length : Nat} {rest : List Handle}
    (stack : store.reusable = handle :: rest) :
    store.allocate length true =
      .ok (handle,
        ⟨store.table.setIfInBounds handle.index (some (Array.replicate length 0)), rest⟩) := by
  obtain ⟨table, reusable⟩ := store
  obtain rfl : reusable = handle :: rest := stack
  rfl

theorem allocate_of_no_stack {length : Nat} (stack : store.reusable = []) :
    store.allocate length true =
      if store.table.size < handleCount then
        .ok (.ofIndex store.table.size,
          ⟨store.table.push (some (Array.replicate length 0)), []⟩)
      else .error .handlesExhausted := by
  obtain ⟨table, reusable⟩ := store
  obtain rfl : reusable = [] := stack
  rfl

theorem free_of_find? {words : Segment} (other : handle ≠ .program)
    (found : store.find? handle = some words) :
    store.free handle =
      .ok ⟨store.table.setIfInBounds handle.index none, handle :: store.reusable⟩ := by
  rw [free, if_neg other, found]

theorem free_of_unmapped (other : handle ≠ .program) (missing : store.find? handle = none) :
    store.free handle = .error (.unmappedSegment handle) := by
  rw [free, if_neg other, missing]

theorem write_of_find? {words : Segment} (found : store.find? handle = some words)
    (offset word : Word) :
    store.write handle offset word =
      if offset.toNat < words.size then
        .ok ⟨store.table.setIfInBounds handle.index
          (some (words.setIfInBounds offset.toNat word)), store.reusable⟩
      else .error (.offsetOutOfBounds handle offset words.size) := by
  rw [write, length_of_find? found]
  simp only [modify_eq_setIfInBounds (find?_eq_some_iff.mp found), Option.map_some]

theorem write_of_unmapped (missing : store.find? handle = none) (offset word : Word) :
    store.write handle offset word = .error (.unmappedSegment handle) := by
  rw [write, length_of_unmapped missing]

theorem install_of_other {words : Segment} (other : handle ≠ .program)
    (found : store.find? handle = some words) :
    store.install handle = .ok ⟨store.table.setIfInBounds 0 (some words), store.reusable⟩ := by
  simp only [install, segment_of_find? found, if_neg other, Array.isEmpty_iff,
    nonempty_of_find? found, if_false]

theorem install_of_unmapped (missing : store.find? handle = none) :
    store.install handle = .error (.unmappedSegment handle) := by
  rw [install, segment_of_unmapped missing]

end Equations

/-! ## What a successful request does -/

section Cases

variable {store next : Store} {handle : Handle}

/-- A segment is mapped under the first handle of the stack, or at the end of the table if the
stack is empty. -/
theorem allocate_cases {length : Nat} {memory : Bool}
    (allocated : store.allocate length memory = .ok (handle, next)) :
    (∃ rest, store.reusable = handle :: rest ∧
      next = ⟨store.table.setIfInBounds handle.index (some (Array.replicate length 0)), rest⟩) ∨
    (store.reusable = [] ∧ store.table.size < handleCount ∧
      handle = .ofIndex store.table.size ∧
      next = ⟨store.table.push (some (Array.replicate length 0)), []⟩) := by
  cases memory with
  | false => cases allocated
  | true =>
      cases stack : store.reusable with
      | cons reused rest =>
          rw [allocate_of_stack stack] at allocated
          cases allocated
          exact .inl ⟨rest, rfl, rfl⟩
      | nil =>
          rw [allocate_of_no_stack stack] at allocated
          split at allocated
          · next room =>
              cases allocated
              exact .inr ⟨rfl, room, rfl, rfl⟩
          · cases allocated

theorem free_cases (freed : store.free handle = .ok next) :
    handle ≠ .program ∧ (∃ words, store.find? handle = some words) ∧
      next = ⟨store.table.setIfInBounds handle.index none, handle :: store.reusable⟩ := by
  unfold free at freed
  split at freed
  · cases freed
  · next other =>
      split at freed
      · next words found =>
          cases freed
          exact ⟨other, ⟨words, found⟩, rfl⟩
      · cases freed

theorem read_cases {offset word : Word} (read : store.read handle offset = .ok word) :
    ∃ words, store.find? handle = some words ∧ words[offset.toNat]? = some word := by
  unfold Store.read at read
  cases found : store.find? handle with
  | none => simp [segment_of_unmapped found] at read
  | some words =>
      simp only [segment_of_find? found] at read
      refine ⟨words, rfl, ?_⟩
      split at read
      · next cell =>
          cases read
          exact cell
      · cases read

theorem write_cases {offset word : Word} (written : store.write handle offset word = .ok next) :
    ∃ words, store.find? handle = some words ∧ offset.toNat < words.size ∧
      next = ⟨store.table.setIfInBounds handle.index
        (some (words.setIfInBounds offset.toNat word)), store.reusable⟩ := by
  unfold write at written
  cases found : store.find? handle with
  | none => simp [length_of_unmapped found] at written
  | some words =>
      simp only [length_of_find? found] at written
      split at written
      · next inside =>
          cases written
          refine ⟨words, rfl, inside, ?_⟩
          rw [modify_eq_setIfInBounds (find?_eq_some_iff.mp found), Option.map_some]
      · cases written

theorem install_cases (installed : store.install handle = .ok next) :
    ∃ words, store.find? handle = some words ∧
      ((handle = .program ∧ next = store) ∨
        (handle ≠ .program ∧
          next = ⟨store.table.setIfInBounds 0 (some words), store.reusable⟩)) := by
  unfold install at installed
  cases found : store.find? handle with
  | none => simp [segment_of_unmapped found] at installed
  | some words =>
      simp only [segment_of_find? found] at installed
      refine ⟨words, rfl, ?_⟩
      split at installed
      · next same =>
          cases installed
          exact .inl ⟨same, rfl⟩
      · next other =>
          split at installed
          · cases installed
          · cases installed
            exact .inr ⟨other, rfl⟩

end Cases

/-! ## What a handle names after a request -/

/-- Replacing the entry of one handle leaves what the others name. -/
theorem find?_setIfInBounds {table : Array (Option Segment)} {reusable : List Handle}
    {handle : Handle} (inside : handle.index < table.size) (entry : Option Segment)
    (other : Handle) :
    find? ⟨table.setIfInBounds handle.index entry, reusable⟩ other =
      if other = handle then entry else table[other.index]?.join := by
  simp only [find?, Array.getElem?_setIfInBounds, ← Handle.index_inj]
  by_cases same : other.index = handle.index
  · simp [same, inside]
  · simp [same, Ne.symm same]

/-- A handle taken from the stack names a position of the table, so mapping it changes what
it names and nothing else. -/
theorem find?_allocate {store next : Store} {length : Nat} {memory : Bool} {handle : Handle}
    (allocated : store.allocate length memory = .ok (handle, next))
    (inside : ∀ reused ∈ store.reusable, reused.index < store.table.size) (other : Handle) :
    next.find? other =
      if other = handle then some (Array.replicate length 0) else store.find? other := by
  obtain ⟨rest, stack, rfl⟩ | ⟨-, room, rfl, rfl⟩ := allocate_cases allocated
  · have position := inside handle (by rw [stack]; exact List.mem_cons_self)
    exact find?_setIfInBounds position _ other
  · simp only [find?, Array.getElem?_push, ← Handle.index_inj, Handle.index_ofIndex room]
    by_cases same : other.index = store.table.size <;> simp [same]

/-- Unmapping a handle leaves all others as they are. -/
theorem find?_free {store next : Store} {handle : Handle} (freed : store.free handle = .ok next)
    (other : Handle) :
    next.find? other = if other = handle then none else store.find? other := by
  obtain ⟨-, ⟨words, found⟩, rfl⟩ := free_cases freed
  exact find?_setIfInBounds (index_lt_of_find? found) none other

/-- Writing changes one segment at most, and that at one offset. -/
theorem find?_write {store next : Store} {handle : Handle} {offset word : Word}
    (written : store.write handle offset word = .ok next) (other : Handle) :
    next.find? other =
      if other = handle then
        (store.find? handle).map fun words => words.setIfInBounds offset.toNat word
      else store.find? other := by
  obtain ⟨words, found, -, rfl⟩ := write_cases written
  rw [found]
  exact find?_setIfInBounds (index_lt_of_find? found) _ other

/-- Installing changes the program only. -/
theorem find?_install {store next : Store} {handle : Handle}
    (installed : store.install handle = .ok next) (other : Handle) :
    next.find? other = if other = .program then store.find? handle else store.find? other := by
  obtain ⟨words, found, ⟨rfl, rfl⟩ | ⟨-, rfl⟩⟩ := install_cases installed
  · split
    · next same => rw [same]
    · rfl
  · have position : Handle.program.index < store.table.size :=
      Nat.zero_lt_of_lt (index_lt_of_find? found)
    rw [found]
    exact find?_setIfInBounds position _ other

end Store

end UniversalMachine
