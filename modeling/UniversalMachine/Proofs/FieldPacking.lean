import UniversalMachine.Proofs.FieldArithmetic

/-!
# Packing fields

A word is packed by setting one field after the other. If no two fields have a bit in common,
setting one leaves the numbers in the others alone. In the end each field shows its number, and
every other bit is what it was. A number that its field cannot hold ends the packing.
-/

namespace UniversalMachine

namespace BitField

variable {width : Nat}

theorem fitsUnsigned_iff {value : Nat} : fitsUnsigned width value = true ↔ value < 2 ^ width := by
  rw [fitsUnsigned, beq_iff_eq, BitVec.toNat_ofNat]
  exact ⟨fun same => same ▸ Nat.mod_lt value (Nat.two_pow_pos width), Nat.mod_eq_of_lt⟩

theorem setUnsigned_of_lt (field : BitField width) (word : BitVec 64) {value : Nat}
    (fits : value < 2 ^ width) :
    field.setUnsigned word value = .ok (field.write word (BitVec.ofNat width value)) :=
  if_pos (fitsUnsigned_iff.mpr fits)

theorem setUnsigned_of_le (field : BitField width) (word : BitVec 64) {value : Nat}
    (wide : 2 ^ width ≤ value) : field.setUnsigned word value = .error ⟨value, width⟩ :=
  if_neg (mt fitsUnsigned_iff.mp (Nat.not_lt.mpr wide))

end BitField

/-- A field of a 64-bit word, whatever its width. -/
structure Slot where
  lsb : Nat
  width : Nat
  inside : width + lsb ≤ 64 := by decide
deriving DecidableEq

namespace Slot

def field (slot : Slot) : BitField slot.width :=
  ⟨slot.lsb, slot.inside⟩

/-- A slot has the positions of its bits as members. -/
instance : Membership Nat Slot where
  mem slot i := slot.lsb ≤ i ∧ i < slot.lsb + slot.width

theorem mem_iff {slot : Slot} {i : Nat} :
    i ∈ slot ↔ slot.lsb ≤ i ∧ i < slot.lsb + slot.width :=
  Iff.rfl

/-- The two slots have no bit in common. -/
def Apart (slot other : Slot) : Prop :=
  ∀ i ∈ slot, i ∉ other

theorem apart_of_le {slot other : Slot} (below : slot.lsb + slot.width ≤ other.lsb) :
    slot.Apart other := by
  intro i mem inside
  rw [mem_iff] at mem inside
  omega

/-- Slots that are listed from the top of the word down are apart. -/
theorem pairwise_apart {slots : List Slot}
    (descending : slots.Pairwise fun above below => below.lsb + below.width ≤ above.lsb) :
    slots.Pairwise fun earlier later => later.Apart earlier :=
  descending.imp apart_of_le

/-- The number in the slot. -/
def value (slot : Slot) (word : BitVec 64) : Nat :=
  slot.field.getUnsigned word

/-- The word with another number in the slot. -/
def put (slot : Slot) (word : BitVec 64) (value : Nat) : BitVec 64 :=
  slot.field.write word (BitVec.ofNat slot.width value)

variable (slot : Slot)

theorem value_lt (word : BitVec 64) : slot.value word < 2 ^ slot.width :=
  BitVec.isLt (slot.field.read word)

@[simp] theorem value_zero : slot.value 0 = 0 := by
  rw [value, BitField.getUnsigned, BitField.toNat_read]
  simp

theorem value_widen (word : Word) :
    slot.value word.widen = word.toNat / 2 ^ slot.lsb % 2 ^ slot.width := by
  rw [value, BitField.getUnsigned, BitField.toNat_read, Word.toNat_widen]
  rfl

variable {slot} {word other : BitVec 64} {i : Nat}

/-- Inside the slot, the bits of the word are those of the number. -/
theorem getLsbD_of_mem (mem : i ∈ slot) :
    word.getLsbD i = (slot.value word).testBit (i - slot.lsb) := by
  obtain ⟨above, below⟩ := mem_iff.mp mem
  have short : i - slot.lsb < slot.width := by omega
  have position : slot.field.lsb + (i - slot.lsb) = i := Nat.add_sub_cancel' above
  rw [value, BitField.getUnsigned, BitVec.testBit_toNat, BitField.getLsbD_read, position,
    decide_eq_true short, Bool.true_and]

/-- Two words have the same number in a slot if they have the same bits there. -/
theorem value_eq_iff :
    slot.value word = slot.value other ↔ ∀ i ∈ slot, word.getLsbD i = other.getLsbD i := by
  constructor
  · intro same i mem
    rw [getLsbD_of_mem mem, getLsbD_of_mem mem, same]
  · intro same
    apply congrArg BitVec.toNat
    apply BitVec.eq_of_getLsbD_eq
    intro i short
    have mem : slot.lsb + i ∈ slot := mem_iff.mpr ⟨by omega, by omega⟩
    rw [BitField.getLsbD_read, BitField.getLsbD_read]
    exact congrArg _ (same _ mem)

theorem getLsbD_put_of_not_mem (outside : i ∉ slot) (value : Nat) :
    (slot.put word value).getLsbD i = word.getLsbD i := by
  rw [put, BitField.getLsbD_write]
  exact if_neg outside

theorem value_put {value : Nat} (fits : value < 2 ^ slot.width) :
    slot.value (slot.put word value) = value := by
  rw [Slot.value, put, BitField.getUnsigned, BitField.read_write, BitVec.toNat_ofNat,
    Nat.mod_eq_of_lt fits]

/-- Another slot does not see what is put into one that is apart from it. -/
theorem value_put_of_apart {seen : Slot} (apart : slot.Apart seen) (value : Nat) :
    seen.value (slot.put word value) = seen.value word := by
  apply value_eq_iff.mpr
  intro i mem
  exact getLsbD_put_of_not_mem (fun inside => apart i inside mem) value

/-- Putting the number back that is there changes nothing. -/
theorem put_value : slot.put word (slot.value word) = word := by
  apply BitVec.eq_of_getLsbD_eq
  intro i _
  by_cases mem : i ∈ slot
  · have same : slot.value (slot.put word (slot.value word)) = slot.value word :=
      value_put (slot.value_lt word)
    exact value_eq_iff.mp same i mem
  · exact getLsbD_put_of_not_mem mem _

/-! ## Many slots -/

/-- The refusal of a number that its slot cannot hold. -/
def overflow? (entry : Slot × Nat) : Option Overflow :=
  if entry.2 < 2 ^ entry.1.width then none else some ⟨entry.2, entry.1.width⟩

theorem overflow?_eq_none_iff {entry : Slot × Nat} :
    overflow? entry = none ↔ entry.2 < 2 ^ entry.1.width := by
  simp [overflow?]

theorem overflow?_eq_some_iff {entry : Slot × Nat} {overflow : Overflow} :
    overflow? entry = some overflow ↔
      2 ^ entry.1.width ≤ entry.2 ∧ overflow = ⟨entry.2, entry.1.width⟩ := by
  by_cases fits : entry.2 < 2 ^ entry.1.width
  · simp [overflow?, fits, Nat.not_le.mpr fits]
  · simp [overflow?, fits, Nat.le_of_not_lt fits, eq_comm]

/-- Puts numbers into slots, one after the other, up to the first that its slot cannot hold. -/
def pack (word : BitVec 64) : List (Slot × Nat) → Except Overflow (BitVec 64)
  | [] => .ok word
  | (slot, value) :: rest => do
    let word ← slot.field.setUnsigned word value
    pack word rest

/-- The word after numbers that their slots can hold have been put into these. -/
def putAll (word : BitVec 64) (entries : List (Slot × Nat)) : BitVec 64 :=
  entries.foldl (fun word entry => entry.1.put word entry.2) word

theorem pack_singleton (slot : Slot) (word : BitVec 64) (value : Nat) :
    pack word [(slot, value)] = slot.field.setUnsigned word value :=
  bind_pure (slot.field.setUnsigned word value)

theorem pack_cons_of_lt {value : Nat} (fits : value < 2 ^ slot.width)
    (rest : List (Slot × Nat)) :
    pack word ((slot, value) :: rest) = pack (slot.put word value) rest := by
  rw [pack, BitField.setUnsigned_of_lt slot.field word fits]
  rfl

/-- A slot that holds zero already can be left out where zero is put into it. -/
theorem pack_cons_zero (blank : slot.value word = 0) (rest : List (Slot × Nat)) :
    pack word ((slot, 0) :: rest) = pack word rest := by
  have unchanged : slot.put word 0 = word := by
    rw [← blank, put_value]
  rw [pack_cons_of_lt (Nat.two_pow_pos slot.width), unchanged]

theorem pack_eq (word : BitVec 64) (entries : List (Slot × Nat)) :
    pack word entries =
      match entries.findSome? overflow? with
      | some overflow => .error overflow
      | none => .ok (putAll word entries) := by
  induction entries generalizing word with
  | nil => rfl
  | cons entry rest ih =>
      obtain ⟨slot, value⟩ := entry
      by_cases fits : value < 2 ^ slot.width
      · rw [pack_cons_of_lt fits, ih, List.findSome?_cons, overflow?_eq_none_iff.mpr fits]
        rfl
      · have refused : overflow? (slot, value) = some ⟨value, slot.width⟩ := if_neg fits
        rw [pack, BitField.setUnsigned_of_le slot.field word (Nat.le_of_not_lt fits),
          List.findSome?_cons, refused]
        rfl

theorem pack_of_fits {entries : List (Slot × Nat)}
    (fits : ∀ entry ∈ entries, entry.2 < 2 ^ entry.1.width) :
    pack word entries = .ok (putAll word entries) := by
  have none_refused : entries.findSome? overflow? = none := by
    rw [List.findSome?_eq_none_iff]
    exact fun entry mem => overflow?_eq_none_iff.mpr (fits entry mem)
  rw [pack_eq, none_refused]

theorem getLsbD_putAll {entries : List (Slot × Nat)} (outside : ∀ entry ∈ entries, i ∉ entry.1) :
    (putAll word entries).getLsbD i = word.getLsbD i := by
  induction entries generalizing word with
  | nil => rfl
  | cons entry rest ih =>
      calc
        (putAll word (entry :: rest)).getLsbD i =
            (entry.1.put word entry.2).getLsbD i := by
          apply ih
          exact fun later mem => outside later (List.mem_cons_of_mem entry mem)
        _ = word.getLsbD i := by
          apply getLsbD_put_of_not_mem
          exact outside entry List.mem_cons_self

theorem value_putAll_of_apart {seen : Slot} {entries : List (Slot × Nat)}
    (apart : ∀ entry ∈ entries, entry.1.Apart seen) :
    seen.value (putAll word entries) = seen.value word := by
  apply value_eq_iff.mpr
  intro i mem
  apply getLsbD_putAll
  exact fun entry member inside => apart entry member i inside mem

/-- Slots that are apart all show the numbers that were put into them. -/
theorem value_putAll {entries : List (Slot × Nat)}
    (apart : (entries.map Prod.fst).Pairwise fun earlier later => later.Apart earlier)
    (fits : ∀ entry ∈ entries, entry.2 < 2 ^ entry.1.width) :
    ∀ entry ∈ entries, entry.1.value (putAll word entries) = entry.2 := by
  induction entries generalizing word with
  | nil => exact fun entry mem => absurd mem List.not_mem_nil
  | cons first rest ih =>
      rw [List.map_cons, List.pairwise_cons] at apart
      obtain ⟨apart_first, apart_rest⟩ := apart
      intro entry mem
      rcases List.mem_cons.mp mem with rfl | later
      · calc
          entry.1.value (putAll (entry.1.put word entry.2) rest) =
              entry.1.value (entry.1.put word entry.2) := by
            apply value_putAll_of_apart
            exact fun other member => apart_first other.1 (List.mem_map_of_mem member)
          _ = entry.2 := value_put (fits entry mem)
      · apply ih apart_rest _ entry later
        exact fun entry mem => fits entry (List.mem_cons_of_mem first mem)

end Slot

/-! ## The low half of a word -/

namespace Word

theorem getLsbD_widen (word : Word) (i : Nat) : word.widen.getLsbD i = word.toNat.testBit i := by
  rw [← toNat_widen, BitVec.testBit_toNat]

/-- Nothing is lost if there are only zeros above bit 31. -/
theorem widen_ofLow {bits : BitVec 64} (low : ∀ i, 32 ≤ i → bits.getLsbD i = false) :
    (ofLow bits).widen = bits := by
  apply BitVec.eq_of_getLsbD_eq
  intro i inside
  rw [widen, ofLow, UInt32.toBitVec_ofBitVec, BitVec.getLsbD_setWidth, BitVec.getLsbD_setWidth]
  by_cases high : 32 ≤ i
  · simp [low i high]
  · simp [inside, Nat.lt_of_not_le high]

/-- Slots in the low half of a word fill nothing but that half. -/
theorem widen_ofLow_putAll {entries : List (Slot × Nat)}
    (low : ∀ entry ∈ entries, entry.1.lsb + entry.1.width ≤ 32) :
    (ofLow (Slot.putAll 0 entries)).widen = Slot.putAll 0 entries := by
  apply widen_ofLow
  intro i high
  have outside : ∀ entry ∈ entries, i ∉ entry.1 := by
    intro entry mem inside
    have below := (Slot.mem_iff.mp inside).2
    have bound := low entry mem
    omega
  rw [Slot.getLsbD_putAll outside]
  exact BitVec.getLsbD_zero

end Word

end UniversalMachine
