import UniversalMachine.Word

/-!
# Segment handles

A handle names a segment. It is a word, so programs can compute with it, and its number is
a position in the table of the store.
-/

namespace UniversalMachine

/-- The name of a segment. -/
structure Handle where
  word : Word
deriving DecidableEq, Repr

namespace Handle

/-- The handle under which the running program is stored. -/
def program : Handle :=
  ⟨0⟩

/-- The position in the table. -/
def index (handle : Handle) : Nat :=
  handle.word.toNat

/-- The handle of a position below `2 ^ 32`. -/
def ofIndex (index : Nat) : Handle :=
  ⟨UInt32.ofNat index⟩

/-- The handle as a decimal number. -/
def text (handle : Handle) : String :=
  toString handle.index

@[simp] theorem index_program : program.index = 0 :=
  rfl

theorem index_lt (handle : Handle) : handle.index < UInt32.size :=
  handle.word.toNat_lt_size

theorem index_ofIndex {i : Nat} (h : i < UInt32.size) : (ofIndex i).index = i :=
  UInt32.toNat_ofNat_of_lt' h

@[simp] theorem ofIndex_index (handle : Handle) : ofIndex handle.index = handle := by
  simp [ofIndex, index]

theorem index_inj {g h : Handle} : g.index = h.index ↔ g = h :=
  ⟨fun same => by rw [← ofIndex_index g, same, ofIndex_index], fun same => same ▸ rfl⟩

end Handle

end UniversalMachine
