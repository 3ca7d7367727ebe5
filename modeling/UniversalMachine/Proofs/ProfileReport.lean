import UniversalMachine.Profile
import Mathlib.Algebra.GroupWithZero.Nat
import Mathlib.Data.List.Sort

/-!
# What a profile reports

Recording operations one by one counts how often each occurs, in whatever order they come. The
report is a stable sort of the counts that are not zero. That settles it: there is one list only
that has all operations that occur with their counts, the most frequent first and equally frequent
ones by their numbers.
-/

namespace UniversalMachine

namespace Profile

/-! ## Recording -/

/-- The profile after operations were recorded one by one. -/
def recorded (ops : List Opcode) : Profile :=
  ops.foldl record empty

theorem count_foldl_record (profile : Profile) (ops : List Opcode) (op : Opcode) :
    (ops.foldl record profile).count op = profile.count op + ops.count op := by
  induction ops generalizing profile with
  | nil => rfl
  | cons first rest ih =>
      rw [List.foldl_cons, ih, count_record, List.count_cons]
      by_cases same : op = first
      · subst same
        simp only [if_true, beq_self_eq_true]
        omega
      · simp [same, Ne.symm same]

theorem steps_foldl_record (profile : Profile) (ops : List Opcode) :
    (ops.foldl record profile).steps = profile.steps + ops.length := by
  induction ops generalizing profile with
  | nil => rw [List.foldl_nil, List.length_nil, Nat.add_zero]
  | cons first rest ih =>
      rw [List.foldl_cons, ih, steps_record, List.length_cons, Nat.add_right_comm, Nat.add_assoc]

@[simp] theorem count_recorded (ops : List Opcode) (op : Opcode) :
    (recorded ops).count op = ops.count op := by
  rw [recorded, count_foldl_record, count_empty, Nat.zero_add]

@[simp] theorem steps_recorded (ops : List Opcode) : (recorded ops).steps = ops.length := by
  rw [recorded, steps_foldl_record, steps_empty, Nat.zero_add]

/-- Profiles that count every operation alike are equal. -/
theorem eq_of_count_eq {left right : Profile} (same : ∀ op, left.count op = right.count op) :
    left = right := by
  obtain ⟨counts⟩ := left
  obtain ⟨others⟩ := right
  congr
  apply Vector.ext
  intro i inside
  obtain ⟨op, rfl⟩ := Opcode.exists_number_eq inside
  exact same op

/-- The order in which operations are recorded does not matter. -/
theorem recorded_of_perm {ops others : List Opcode} (perm : others.Perm ops) :
    recorded others = recorded ops :=
  eq_of_count_eq fun op => by rw [count_recorded, count_recorded, perm.count_eq]

/-! ## Ranking -/

/-- A stable sort keeps the order of those entries that stand in order already. -/
theorem filter_mergeSort {α : Type} {le : α → α → Bool} (trans : ∀ a b c, le a b → le b c → le a c)
    (total : ∀ a b, le a b || le b a) {entries : List α} {p : α → Bool}
    (sorted : (entries.filter p).Pairwise fun a b => le a b) :
    (entries.mergeSort le).filter p = entries.filter p := by
  have kept : (entries.filter p).Sublist (entries.mergeSort le) :=
    List.sublist_mergeSort trans total sorted List.filter_sublist
  have among := kept.filter p
  rw [List.filter_filter] at among
  simp only [Bool.and_self] at among
  have size := ((List.mergeSort_perm entries le).filter p).length_eq
  exact (among.eq_of_length size.symm).symm

/-- The more frequent operation comes first. -/
def rankedBefore (first second : Opcode × Nat) : Bool :=
  second.2 ≤ first.2

theorem rankedBefore_trans (a b c : Opcode × Nat) :
    rankedBefore a b → rankedBefore b c → rankedBefore a c := by
  simp only [rankedBefore, decide_eq_true_eq]
  omega

theorem rankedBefore_total (a b : Opcode × Nat) : rankedBefore a b || rankedBefore b a := by
  simp only [rankedBefore, Bool.or_eq_true, decide_eq_true_eq]
  omega

/-- The operations that occurred with their counts, in the order of the numbers. -/
def counted (profile : Profile) : List (Opcode × Nat) :=
  (Opcode.all.map fun op => (op, profile.count op)).filter fun entry => 0 < entry.2

variable {profile : Profile}

theorem hottest_eq (profile : Profile) : profile.hottest = profile.counted.mergeSort rankedBefore :=
  rfl

theorem hottest_perm (profile : Profile) : profile.hottest.Perm profile.counted :=
  List.mergeSort_perm _ _

theorem mem_counted_iff {op : Opcode} {number : Nat} :
    (op, number) ∈ profile.counted ↔ 0 < number ∧ number = profile.count op := by
  simp [counted, Opcode.mem_all, and_comm, eq_comm]

theorem map_fst_counted (profile : Profile) :
    profile.counted.map Prod.fst = Opcode.all.filter fun op => 0 < profile.count op := by
  rw [counted, List.filter_map, List.map_map]
  exact List.map_id _

theorem counted_numbers (profile : Profile) :
    profile.counted.Pairwise fun first second => first.1.number < second.1.number := by
  have numbers : Opcode.all.Pairwise fun first second => first.number < second.number := by decide
  rw [counted, List.filter_map, List.pairwise_map]
  exact numbers.sublist List.filter_sublist

/-- Operations that did not occur add nothing. -/
theorem sum_filter_pos (entries : List (Opcode × Nat)) :
    ((entries.filter fun entry => 0 < entry.2).map Prod.snd).sum = (entries.map Prod.snd).sum := by
  induction entries with
  | nil => rfl
  | cons entry rest ih =>
      obtain ⟨op, number⟩ := entry
      cases number with
      | zero => simpa using ih
      | succ number => simpa using ih

theorem total_eq_sum (profile : Profile) (ops : List Opcode) :
    profile.total ops = (ops.map profile.count).sum := by
  induction ops with
  | nil => rfl
  | cons op rest ih => rw [total, ih, List.map_cons, List.sum_cons]

theorem sum_hottest (profile : Profile) : (profile.hottest.map Prod.snd).sum = profile.steps := by
  rw [((hottest_perm profile).map Prod.snd).sum_nat, counted, sum_filter_pos, List.map_map, steps,
    total_eq_sum]
  rfl

theorem hottest_falls (profile : Profile) :
    profile.hottest.Pairwise fun first second => second.2 ≤ first.2 := by
  have ranked := List.pairwise_mergeSort rankedBefore_trans rankedBefore_total profile.counted
  rw [← hottest_eq] at ranked
  exact ranked.imp of_decide_eq_true

/-- Equally frequent operations stay in the order of their numbers. -/
theorem hottest_ties (profile : Profile) :
    profile.hottest.Pairwise fun first second =>
      first.2 = second.2 → first.1.number < second.1.number := by
  rw [List.pairwise_iff_forall_sublist]
  intro first second stand tied
  -- The entries with this count are sorted as they are, so sorting leaves them in place.
  let tie (entry : Opcode × Nat) : Bool := entry.2 = first.2
  have sorted : (profile.counted.filter tie).Pairwise fun a b => rankedBefore a b := by
    apply List.pairwise_of_forall_mem_list
    simp +contextual [tie, rankedBefore]
  have kept := stand.filter tie
  rw [hottest_eq, filter_mergeSort rankedBefore_trans rankedBefore_total sorted] at kept
  have both : [first, second].filter tie = [first, second] := by simp [tie, tied]
  rw [both] at kept
  exact List.pairwise_iff_forall_sublist.mp profile.counted_numbers (kept.trans List.filter_sublist)

/-! ## The report -/

/-- A faithful report on operations: it lists those that occur, each once and with its count, the
most frequent first and equally frequent ones in the order of their numbers, and its counts add up
to all. -/
structure Reports (ops : List Opcode) (report : List (Opcode × Nat)) : Prop where
  once : (report.map Prod.fst).Nodup
  lists : ∀ op number, (op, number) ∈ report ↔ op ∈ ops ∧ number = ops.count op
  falls : report.Pairwise fun first second => second.2 ≤ first.2
  ties : report.Pairwise fun first second =>
    first.2 = second.2 → first.1.number < second.1.number
  sums : (report.map Prod.snd).sum = ops.length

theorem reports_hottest (ops : List Opcode) : Reports ops (recorded ops).hottest where
  once := by
    have distinct : Opcode.all.Nodup := by decide
    rw [((hottest_perm _).map Prod.fst).nodup_iff, map_fst_counted]
    exact distinct.filter _
  lists op number := by
    rw [(hottest_perm _).mem_iff, mem_counted_iff, count_recorded, ← List.count_pos_iff]
    exact and_congr_left fun same => same ▸ Iff.rfl
  falls := hottest_falls _
  ties := hottest_ties _
  sums := by rw [sum_hottest, steps_recorded]

/-- Which of two entries comes first is settled by what they hold. -/
theorem Reports.unique {ops : List Opcode} {report other : List (Opcode × Nat)}
    (reports : Reports ops report) (reports_too : Reports ops other) : report = other := by
  let Before (first second : Opcode × Nat) : Prop :=
    second.2 ≤ first.2 ∧ (first.2 = second.2 → first.1.number < second.1.number)
  have strict : Std.Irrefl Before := ⟨fun entry before => Nat.lt_irrefl _ (before.2 rfl)⟩
  have apart : Std.Antisymm Before := by
    constructor
    intro first second before after
    have tied := Nat.le_antisymm after.1 before.1
    exact absurd (before.2 tied) (Nat.not_lt_of_lt (after.2 tied.symm))
  have ranked : report.Pairwise Before := reports.falls.and reports.ties
  have ranked_too : other.Pairwise Before := reports_too.falls.and reports_too.ties
  apply ranked.eq_of_mem_iff ranked_too
  rintro ⟨op, number⟩
  rw [reports.lists, reports_too.lists]

/-- The profile tells how often each operation was recorded and how many there were, and it has
one faithful report and no other. None of this depends on the order in which they were recorded. -/
theorem report_faithful (ops : List Opcode) :
    let profile := recorded ops
    (∀ op, profile.count op = ops.count op) ∧ profile.steps = ops.length ∧
    (∀ report, Reports ops report ↔ report = profile.hottest) ∧
    ∀ others, others.Perm ops →
      recorded others = profile ∧ (recorded others).hottest = profile.hottest := by
  intro profile
  refine ⟨count_recorded ops, steps_recorded ops, ?_, ?_⟩
  · intro report
    constructor
    · exact fun reports => reports.unique (reports_hottest ops)
    · rintro rfl
      exact reports_hottest ops
  · intro others perm
    have same := recorded_of_perm perm
    exact ⟨same, by rw [same]⟩

/-- Two operations occur twice, and the one with the lower number comes first. -/
theorem report_faithful_tied :
    let ops : List Opcode := [.halt, .input, .add, .add, .halt]
    let others : List Opcode := [.input, .add, .halt, .add, .halt]
    others.Perm ops ∧ (recorded ops).hottest = [(.add, 2), (.halt, 2), (.input, 1)] ∧
    recorded others = recorded ops := by
  intro ops others
  have perm : others.Perm ops := by decide
  have reports : Reports ops [(.add, 2), (.halt, 2), (.input, 1)] :=
    { once := by decide
      lists := by
        intro op number
        cases op <;> simp [ops]
      falls := by decide
      ties := by decide
      sums := rfl }
  obtain ⟨-, -, only, alike⟩ := report_faithful ops
  exact ⟨perm, ((only _).mp reports).symm, (alike others perm).1⟩

end Profile

end UniversalMachine
