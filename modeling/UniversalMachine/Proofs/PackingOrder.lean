import UniversalMachine.Proofs.SignedField
import Mathlib.Data.List.Perm.Basic

/-!
# The order of packing

Natural numbers and integers are put into slots of a word, one after the other. If no two slots
have a bit in common, the word that comes out is the only one that shows every number in its slot
and agrees with the first word elsewhere. So the order does not matter, and if there is no bit
elsewhere, the first word does not either.
-/

namespace UniversalMachine

/-- A number on its way into a field, where it stands for itself or in two's complement. -/
inductive FieldNumber where
  | unsigned (value : Nat)
  | signed (value : Int)
deriving DecidableEq, Repr

namespace FieldNumber

/-- The bits that show the number if it fits. -/
def bits (width : Nat) : FieldNumber → BitVec width
  | unsigned value => BitVec.ofNat width value
  | signed value => BitVec.ofInt width value

/-- That many bits can show the number. -/
def Fits (width : Nat) : FieldNumber → Prop
  | unsigned value => value < 2 ^ width
  | signed value => value ∈ BitField.signedRange width

instance (width : Nat) : DecidablePred (Fits width)
  | unsigned value => inferInstanceAs (Decidable (value < 2 ^ width))
  | signed _ => decidable_of_iff _ BitField.mem_signedRange_iff.symm

end FieldNumber

namespace Slot

/-- The word with the number in the slot, if it fits. -/
def set (slot : Slot) (word : BitVec 64) : FieldNumber → Except Overflow (BitVec 64)
  | .unsigned value => slot.field.setUnsigned word value
  | .signed value => slot.field.setSigned word value

/-- The number in the slot, read in the same way as the given one. -/
def get (slot : Slot) (word : BitVec 64) : FieldNumber → FieldNumber
  | .unsigned _ => .unsigned (slot.field.getUnsigned word)
  | .signed _ => .signed (slot.field.getSigned word)

/-- Puts numbers into slots, one after the other, up to the first that does not fit. -/
def setAll (word : BitVec 64) (entries : List (Slot × FieldNumber)) :
    Except Overflow (BitVec 64) :=
  entries.foldlM (fun word entry => entry.1.set word entry.2) word

variable {slot : Slot} {word : BitVec 64} {number : FieldNumber}

theorem set_of_fits (fits : number.Fits slot.width) :
    slot.set word number = .ok (slot.put word (number.bits slot.width).toNat) := by
  have whole : slot.put word (number.bits slot.width).toNat =
      slot.field.write word (number.bits slot.width) := by
    rw [put, BitVec.ofNat_toNat, BitVec.setWidth_eq]
  rw [whole]
  cases number with
  | unsigned value => exact slot.field.setUnsigned_of_lt word fits
  | signed value => exact slot.field.setSigned_of_mem word fits

/-- A number that does not fit is refused, whatever the word is. -/
theorem set_of_not_fits (wide : ¬ number.Fits slot.width) :
    ∃ overflow, ∀ word, slot.set word number = .error overflow := by
  cases number with
  | unsigned value =>
      exact ⟨_, fun word => slot.field.setUnsigned_of_le word (Nat.le_of_not_lt wide)⟩
  | signed value => exact ⟨_, fun word => slot.field.setSigned_of_not_mem word wide⟩

/-- A slot with the bits of a number that fits shows the number. -/
theorem get_of_value (fits : number.Fits slot.width)
    (shown : slot.value word = (number.bits slot.width).toNat) :
    slot.get word number = number := by
  have same : slot.field.read word = number.bits slot.width := BitVec.eq_of_toNat_eq shown
  cases number with
  | unsigned value =>
      have shown_value : slot.field.getUnsigned word = value := by
        rw [BitField.getUnsigned, same, FieldNumber.bits, BitVec.toNat_ofNat,
          Nat.mod_eq_of_lt fits]
      rw [get, shown_value]
  | signed value =>
      have shown_value : slot.field.getSigned word = value := by
        rw [BitField.getSigned, same, FieldNumber.bits, BitField.toInt_ofInt_eq_iff.mpr fits]
      rw [get, shown_value]

theorem get_fits : (slot.get word number).Fits slot.width := by
  cases number with
  | unsigned value => exact slot.value_lt word
  | signed value => exact BitField.toInt_mem (slot.field.read word)

theorem bits_get : (slot.get word number).bits slot.width = slot.field.read word := by
  cases number with
  | unsigned value =>
      change BitVec.ofNat slot.width (slot.field.read word).toNat = slot.field.read word
      rw [BitVec.ofNat_toNat, BitVec.setWidth_eq]
  | signed value => exact BitVec.ofInt_toInt

/-- What was read can be put back, and this changes nothing. -/
theorem set_get (slot : Slot) (word : BitVec 64) (number : FieldNumber) :
    slot.set word (slot.get word number) = .ok word := by
  rw [set_of_fits get_fits, bits_get]
  exact congrArg Except.ok put_value

theorem put_put (first second : Nat) :
    slot.put (slot.put word first) second = slot.put word second := by
  apply BitVec.eq_of_getLsbD_eq
  intro i _
  simp only [put, BitField.getLsbD_write]
  split <;> rfl

/-- A number replaces the one that was put into the slot before. -/
theorem set_set {between : BitVec 64} (first_set : slot.set word number = .ok between)
    (second : FieldNumber) : slot.set between second = slot.set word second := by
  have first_fits : number.Fits slot.width := by
    by_contra wide
    obtain ⟨overflow, refused⟩ := set_of_not_fits wide
    rw [refused] at first_set
    cases first_set
  by_cases fits : second.Fits slot.width
  · rw [set_of_fits first_fits, Except.ok.injEq] at first_set
    rw [set_of_fits fits, set_of_fits fits, ← first_set, put_put]
  · obtain ⟨overflow, refused⟩ := set_of_not_fits fits
    rw [refused, refused]

/-! ## Many slots -/

theorem Apart.symm {other : Slot} (apart : slot.Apart other) : other.Apart slot :=
  fun i mem inside => apart i inside mem

/-- A slot without bits is apart from every slot, wherever it lies. -/
theorem apart_iff {other : Slot} :
    slot.Apart other ↔ slot.width = 0 ∨ other.width = 0 ∨
      slot.lsb + slot.width ≤ other.lsb ∨ other.lsb + other.width ≤ slot.lsb := by
  constructor
  · intro apart
    by_contra overlap
    have mem : max slot.lsb other.lsb ∈ slot := mem_iff.mpr (by omega)
    have inside : max slot.lsb other.lsb ∈ other := mem_iff.mpr (by omega)
    exact apart _ mem inside
  · intro bounds i mem inside
    rw [mem_iff] at mem inside
    omega

instance : DecidableRel Apart :=
  fun _ _ => decidable_of_iff _ apart_iff.symm

/-- The slots with the bits that the numbers are written as. -/
def patterns (entries : List (Slot × FieldNumber)) : List (Slot × Nat) :=
  entries.map fun entry => (entry.1, (entry.2.bits entry.1.width).toNat)

theorem slots_patterns (entries : List (Slot × FieldNumber)) :
    (patterns entries).map Prod.fst = entries.map Prod.fst := by
  rw [patterns, List.map_map]
  rfl

theorem patterns_fit (entries : List (Slot × FieldNumber)) :
    ∀ entry ∈ patterns entries, entry.2 < 2 ^ entry.1.width := by
  intro entry mem
  obtain ⟨source, -, rfl⟩ := List.mem_map.mp mem
  exact BitVec.isLt _

theorem value_patterns (word : BitVec 64) {entries : List (Slot × FieldNumber)}
    (apart : (entries.map Prod.fst).Pairwise Apart) :
    ∀ entry ∈ patterns entries, entry.1.value (putAll word (patterns entries)) = entry.2 := by
  apply value_putAll
  · rw [slots_patterns]
    exact apart.imp Apart.symm
  · exact patterns_fit entries

theorem setAll_of_fits {entries : List (Slot × FieldNumber)}
    (fits : ∀ entry ∈ entries, entry.2.Fits entry.1.width) :
    setAll word entries = .ok (putAll word (patterns entries)) := by
  induction entries generalizing word with
  | nil => rfl
  | cons entry rest ih =>
      rw [setAll, List.foldlM_cons, set_of_fits (fits entry List.mem_cons_self)]
      exact ih fun entry mem => fits entry (List.mem_cons_of_mem _ mem)

/-- Only one word shows all numbers in their slots and agrees with another word elsewhere. -/
theorem eq_putAll {entries : List (Slot × Nat)} {result : BitVec 64}
    (apart : (entries.map Prod.fst).Pairwise Apart)
    (fits : ∀ entry ∈ entries, entry.2 < 2 ^ entry.1.width)
    (shown : ∀ entry ∈ entries, entry.1.value result = entry.2)
    (elsewhere : ∀ i, (∀ entry ∈ entries, i ∉ entry.1) → result.getLsbD i = word.getLsbD i) :
    result = putAll word entries := by
  have shown_all : ∀ entry ∈ entries, entry.1.value (putAll word entries) = entry.2 :=
    value_putAll (apart.imp Apart.symm) fits
  apply BitVec.eq_of_getLsbD_eq
  intro i _
  by_cases covered : ∃ entry ∈ entries, i ∈ entry.1
  · obtain ⟨entry, mem, inside⟩ := covered
    have same := (shown entry mem).trans (shown_all entry mem).symm
    exact value_eq_iff.mp same i inside
  · have outside : ∀ entry ∈ entries, i ∉ entry.1 :=
      fun entry mem inside => covered ⟨entry, mem, inside⟩
    rw [elsewhere i outside, getLsbD_putAll outside]

/-- The slots say which bits of the first word are kept, so two words that agree on these give the
same word. -/
theorem setAll_eq {entries order : List (Slot × FieldNumber)} {other : BitVec 64}
    (apart : (entries.map Prod.fst).Pairwise Apart)
    (fits : ∀ entry ∈ entries, entry.2.Fits entry.1.width) (same : order.Perm entries)
    (agree : ∀ i, (∀ entry ∈ entries, i ∉ entry.1) → other.getLsbD i = word.getLsbD i) :
    setAll other order = setAll word entries := by
  have fits_order : ∀ entry ∈ order, entry.2.Fits entry.1.width :=
    fun entry mem => fits entry (same.subset mem)
  have apart_order : ((patterns order).map Prod.fst).Pairwise Apart := by
    rw [slots_patterns]
    exact ((same.map Prod.fst).pairwise_iff Apart.symm).mpr apart
  have shown := value_patterns word apart
  rw [setAll_of_fits fits_order, setAll_of_fits fits, Except.ok.injEq]
  symm
  apply eq_putAll apart_order (patterns_fit order)
  · intro entry mem
    exact shown entry ((same.map _).subset mem)
  · intro i outside
    have outside_entries : ∀ entry ∈ patterns entries, i ∉ entry.1 :=
      fun entry mem => outside entry ((same.map _).symm.subset mem)
    rw [getLsbD_putAll outside_entries]
    exact (agree i fun entry mem => outside_entries _ (List.mem_map_of_mem mem)).symm

/-- Packing loses nothing and does not depend on an order. Let numbers, natural or signed, fit the
slots they are put into, and let no two of the slots have a bit in common. Put into their slots in
any order, they give the same word, which shows each of them and has every other bit of the word
before; if there is no other bit, it is the same for every word before. Further, what was read from
a slot can be put back and changes nothing, and a number that is put into a slot erases what was put
there before. -/
theorem packing_in_any_order (word : BitVec 64) {entries : List (Slot × FieldNumber)}
    (apart : (entries.map Prod.fst).Pairwise Apart)
    (fits : ∀ entry ∈ entries, entry.2.Fits entry.1.width) :
    (∃ result,
      (∀ order, order.Perm entries → setAll word order = .ok result) ∧
      (∀ entry ∈ entries, entry.1.get result entry.2 = entry.2) ∧
      (∀ i, (∀ entry ∈ entries, i ∉ entry.1) → result.getLsbD i = word.getLsbD i) ∧
      ((∀ i < 64, ∃ entry ∈ entries, i ∈ entry.1) →
        ∀ other order, order.Perm entries → setAll other order = .ok result)) ∧
    (∀ (slot : Slot) (before : BitVec 64),
      slot.field.setUnsigned before (slot.field.getUnsigned before) = .ok before ∧
      slot.field.setSigned before (slot.field.getSigned before) = .ok before) ∧
    ∀ (slot : Slot) (before between : BitVec 64) (first second : FieldNumber),
      slot.set before first = .ok between → slot.set between second = slot.set before second := by
  refine ⟨⟨putAll word (patterns entries), ?_, ?_, ?_, ?_⟩, ?_, ?_⟩
  · intro order same
    rw [setAll_eq apart fits same fun i _ => rfl, setAll_of_fits fits]
  · intro entry mem
    apply get_of_value (fits entry mem)
    exact value_patterns word apart _ (List.mem_map_of_mem mem)
  · intro i outside
    apply getLsbD_putAll
    exact List.forall_mem_map.mpr outside
  · intro covered other order same
    have agree : ∀ i, (∀ entry ∈ entries, i ∉ entry.1) → other.getLsbD i = word.getLsbD i := by
      intro i outside
      have beyond : 64 ≤ i := by
        by_contra inside
        obtain ⟨entry, mem, shown⟩ := covered i (Nat.lt_of_not_le inside)
        exact outside entry mem shown
      rw [BitVec.getLsbD_of_ge other i beyond, BitVec.getLsbD_of_ge word i beyond]
    rw [setAll_eq apart fits same agree, setAll_of_fits fits]
  · intro slot before
    exact ⟨set_get slot before (.unsigned 0), set_get slot before (.signed 0)⟩
  · intro slot before between first second first_set
    exact set_set first_set second

/-- Five fields that cover a word, two of them without bits: one of these at the end of the word,
the other within the bits of a signed field. That field is then written a second time. -/
theorem packing_in_any_order_mixed :
    let slot : Slot := { lsb := 8, width := 24 }
    let entries : List (Slot × FieldNumber) :=
      [({ lsb := 0, width := 8 }, .unsigned 200), (slot, .signed (-5)),
        ({ lsb := 20, width := 0 }, .signed 0), ({ lsb := 32, width := 32 }, .signed 7),
        ({ lsb := 64, width := 0 }, .unsigned 0)]
    (entries.map Prod.fst).Pairwise Apart ∧
    (∀ entry ∈ entries, entry.2.Fits entry.1.width) ∧
    (∀ i < 64, ∃ entry ∈ entries, i ∈ entry.1) ∧
    setAll 0 entries = .ok 0x00000007FFFFFBC8 ∧
    (∀ other order, order.Perm entries → setAll other order = .ok 0x00000007FFFFFBC8) ∧
    slot.set 0x00000007FFFFFBC8 (.signed 3) = .ok 0x00000007000003C8 ∧
    slot.set 0x00000007000003C8 (.signed (-5)) = .ok 0x00000007FFFFFBC8 := by
  intro slot entries
  have apart : (entries.map Prod.fst).Pairwise Apart := by decide
  have fits : ∀ entry ∈ entries, entry.2.Fits entry.1.width := by decide
  have covered : ∀ i < 64, ∃ entry ∈ entries, i ∈ entry.1 := by
    intro i inside
    simp only [entries, slot, List.exists_mem_cons_iff, List.not_mem_nil, false_and, exists_false,
      mem_iff]
    omega
  have packed : setAll 0 entries = .ok 0x00000007FFFFFBC8 := by decide +kernel
  have rewritten : slot.set 0x00000007FFFFFBC8 (.signed 3) = .ok 0x00000007000003C8 := by
    decide +kernel
  have kept : slot.set 0x00000007FFFFFBC8 (.signed (-5)) = .ok 0x00000007FFFFFBC8 := by
    decide +kernel
  obtain ⟨⟨result, same, -, -, whole⟩, -, erased⟩ := packing_in_any_order 0 apart fits
  have result_eq : result = 0x00000007FFFFFBC8 :=
    Except.ok.inj ((same entries (.refl entries)).symm.trans packed)
  exact ⟨apart, fits, covered, packed, result_eq ▸ whole covered, rewritten,
    (erased slot _ _ _ _ rewritten).trans kept⟩

end Slot

end UniversalMachine
