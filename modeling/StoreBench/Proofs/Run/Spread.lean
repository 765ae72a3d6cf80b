import StoreBench.Proofs.Intervals
import StoreBench.Proofs.Outcome
import StoreBench.Run.Executor

/-! How transactions are spread over workers. The shares of a workload follow one another without a
gap and come to all of it, and a run that may start refers to the sample data only. -/
namespace StoreBench

/-- Ranges cut a list at their bounds. -/
theorem Range.flatten_consecutive {α : Type} (items : Array α) (start : Nat) (sizes : List Nat) :
    ((consecutive start sizes).map (·.slice items)).flatten ++
      items.toList.drop (start + sizes.sum) = items.toList.drop start := by
  induction sizes generalizing start with
  | nil => rfl
  | cons size more ih =>
      rw [consecutive, List.map_cons, List.flatten_cons, List.append_assoc, List.sum_cons,
        ← Nat.add_assoc, ih, slice, Array.toList_extract, List.extract_eq_take_drop,
        Nat.add_sub_cancel_left, ← List.drop_drop, List.take_append_drop]

/-- Ranges that do not go beyond the end of a list cut out as much as they hold. -/
theorem Range.lengths_consecutive {α : Type} (items : Array α) (start : Nat) {sizes : List Nat}
    (h : start + sizes.sum ≤ items.size) :
    ((consecutive start sizes).map (·.slice items)).map List.length = sizes := by
  induction sizes generalizing start with
  | nil => rfl
  | cons size more ih =>
      rw [List.sum_cons, ← Nat.add_assoc] at h
      rw [consecutive, List.map_cons, List.map_cons, ih (start + size) h, slice]
      simp
      omega

theorem Range.length_consecutive (start : Nat) (sizes : List Nat) :
    (consecutive start sizes).length = sizes.length := by
  induction sizes generalizing start with
  | nil => rfl
  | cons size more ih => rw [consecutive, List.length_cons, List.length_cons, ih]

theorem length_shareSizes (len threads : Nat) : (shareSizes len threads).length = threads := by
  rw [shareSizes, List.length_map, List.length_range]

/-- Range by range, consecutive ranges start where the sizes in front of them have come to. -/
theorem Range.getElem?_consecutive (start : Nat) {sizes : List Nat} {place : Nat}
    (h : place < sizes.length) :
    (consecutive start sizes)[place]? =
      some ⟨start + upTo sizes place, start + upTo sizes (place + 1)⟩ := by
  induction sizes generalizing start place with
  | nil => exact absurd h (Nat.not_lt_zero place)
  | cons size more ih =>
      rw [consecutive]
      cases place with
      | zero => rw [List.getElem?_cons_zero, upTo_cons_succ, upTo_zero, upTo_zero]; rfl
      | succ place =>
          rw [List.getElem?_cons_succ, ih (start + size) (Nat.lt_of_succ_lt_succ h),
            upTo_cons_succ, upTo_cons_succ, Nat.add_assoc, Nat.add_assoc]

/-- The range at this place holds the position. -/
def Range.Hold (ranges : List Range) (place position : Nat) : Prop :=
  ∃ range : Range, ranges[place]? = some range ∧ range.start ≤ position ∧ position < range.stop

/-- A range holds the positions that the part of the same place spans. -/
theorem Range.hold_consecutive_iff {sizes : List Nat} {place position : Nat} :
    Hold (consecutive 0 sizes) place position ↔ Spans sizes place position := by
  constructor
  · rintro ⟨range, hRange, hHolds⟩
    obtain ⟨hPlace, _⟩ := List.getElem?_eq_some_iff.mp hRange
    rw [length_consecutive] at hPlace
    rw [getElem?_consecutive 0 hPlace, Nat.zero_add, Nat.zero_add] at hRange
    cases hRange
    exact hHolds
  · intro h
    exact ⟨_, getElem?_consecutive 0 h.lt_length, by simpa using h.1, by simpa using h.2⟩

/-- The first shares take what is left over, one transaction each. -/
theorem upTo_shareSizes (len : Nat) {threads count : Nat} (h : count ≤ threads) :
    upTo (shareSizes len threads) count = count * (len / threads) + min count (len % threads) := by
  induction count with
  | zero => rw [upTo_zero, Nat.zero_mul, Nat.zero_min]
  | succ count ih =>
      have hPlace : count < (shareSizes len threads).length := by rwa [length_shareSizes]
      have hSize : (shareSizes len threads)[count] =
          len / threads + if count < len % threads then 1 else 0 := by simp [shareSizes]
      rw [upTo_succ hPlace, ih (Nat.le_of_succ_le h), hSize, Nat.succ_mul]
      split <;> omega

/-- What is left over is less than one transaction for each worker, so the shares come to all. -/
theorem sum_shareSizes (len : Nat) {threads : Nat} (hThreads : threads ≠ 0) :
    (shareSizes len threads).sum = len := by
  have hAll := upTo_length (shareSizes len threads)
  have hLess : len % threads < threads := Nat.mod_lt len (Nat.pos_of_ne_zero hThreads)
  rw [length_shareSizes, upTo_shareSizes len (Nat.le_refl threads),
    Nat.min_eq_right (Nat.le_of_lt hLess), Nat.div_add_mod] at hAll
  exact hAll.symm

/-- The checks in front of a partition, one after the other. -/
theorem partition_eq (len threads : Nat) :
    partition len threads =
      if threads = 0 then .error (.error .zeroThreads)
      else if len < threads then .error (.error (.tooManyThreads threads len))
      else if threads * Range.width ≤ memoryMax then
        .ok (Range.consecutive 0 (shareSizes len threads))
      else .error (.fault .capacity) := by
  rw [partition, reserve]
  split_ifs <;> rfl

/-- The ranges of a workload's shares, if it has room for them. -/
theorem partition_ok {len threads : Nat} {ranges : List Range}
    (h : partition len threads = .ok ranges) :
    threads ≠ 0 ∧ ranges = Range.consecutive 0 (shareSizes len threads) := by
  rw [partition_eq] at h
  split_ifs at h with hNone
  cases h
  exact ⟨hNone, rfl⟩

namespace Partitioning

variable {threads : Nat} {assignments : List (List Transaction)}

/-- The workers get all transactions of a shared workload, in their order. -/
theorem assign_shared {workload : Workload}
    (h : (shared workload).assign threads = .ok assignments) :
    assignments.flatten = workload ∧ assignments.length = threads := by
  obtain ⟨ranges, hRanges, hSlices⟩ := exists_of_bind_eq_ok h
  obtain ⟨hThreads, rfl⟩ := partition_ok hRanges
  cases hSlices
  constructor
  · have hFlatten :=
      Range.flatten_consecutive workload.toArray 0 (shareSizes workload.length threads)
    rw [sum_shareSizes workload.length hThreads, Nat.zero_add, List.drop_zero,
      List.drop_length, List.append_nil] at hFlatten
    exact hFlatten
  · rw [List.length_map, Range.length_consecutive, length_shareSizes]

theorem lengths_assign_shared {workload : Workload}
    (h : (shared workload).assign threads = .ok assignments) :
    assignments.map List.length = shareSizes workload.length threads := by
  obtain ⟨ranges, hRanges, hSlices⟩ := exists_of_bind_eq_ok h
  obtain ⟨hThreads, rfl⟩ := partition_ok hRanges
  cases hSlices
  apply Range.lengths_consecutive
  rw [sum_shareSizes workload.length hThreads]
  simp

/-- Worker `i` of a run on a pool gets entry `i`. -/
theorem assign_preSplit {pool : Pool} (h : (preSplit pool).assign threads = .ok assignments) :
    assignments = pool.take threads ∧ assignments.length = threads := by
  rw [assign] at h
  split at h
  · cases h
  · cases h
    exact ⟨rfl, List.length_take_of_le (Nat.le_of_not_lt ‹_›)⟩

theorem length_assign {partitioning : Partitioning}
    (h : partitioning.assign threads = .ok assignments) : assignments.length = threads := by
  cases partitioning with
  | shared workload => exact (assign_shared h).2
  | preSplit pool => exact (assign_preSplit h).2

end Partitioning

section Check

variable {samples worker : Nat} {transactions : List Transaction}

/-- All commands refer to pairs. -/
def InRange (samples : Nat) (transactions : List Transaction) : Prop :=
  ∀ tx ∈ transactions, ∀ cmd ∈ tx, cmd.index < samples

/-- What the check has against the transactions of one worker. -/
def workerFault (samples worker : Nat) (transactions : List Transaction) : Option ConfigError :=
  transactions.zipIdx.findSome? fun (tx, place) =>
    (tx.find? fun cmd => samples ≤ cmd.index).map fun cmd =>
      .dataIndexOutOfRange worker place cmd.index samples

theorem checkIndices_eq (samples : Nat) (assignments : List (List Transaction)) :
    checkIndices samples assignments =
      match assignments.zipIdx.findSome? fun (transactions, worker) =>
        workerFault samples worker transactions with
      | some error => .error error
      | none => .ok () := rfl

/-- Numbers play no part in a search that finds nothing. -/
theorem forall_mem_zipIdx_iff {α β : Type} {answer : α × Nat → Option β} {silent : α → Prop}
    (h : ∀ entry, answer entry = none ↔ silent entry.1) {items : List α} :
    (∀ entry ∈ items.zipIdx, answer entry = none) ↔ ∀ item ∈ items, silent item := by
  simp only [h]
  rw [← List.forall_mem_map, List.zipIdx_map_fst]

theorem workerFault_eq_none_iff :
    workerFault samples worker transactions = none ↔ InRange samples transactions := by
  rw [workerFault, List.findSome?_eq_none_iff]
  apply forall_mem_zipIdx_iff
  simp

/-- The check lets through what refers to pairs alone. -/
theorem checkIndices_eq_ok_iff {assignments : List (List Transaction)} :
    checkIndices samples assignments = .ok () ↔
      ∀ transactions ∈ assignments, InRange samples transactions := by
  have hNone : (assignments.zipIdx.findSome? fun (transactions, worker) =>
      workerFault samples worker transactions) = none ↔
        ∀ transactions ∈ assignments, InRange samples transactions := by
    rw [List.findSome?_eq_none_iff]
    apply forall_mem_zipIdx_iff
    exact fun _ => workerFault_eq_none_iff
  rw [← hNone, checkIndices_eq]
  split
  case h_1 error hFault => simp [hFault]
  case h_2 hSilent => simp [hSilent]

end Check

/-- What the checks of a run have found out about its assignments. -/
theorem Run.prepare_ok {config : RunConfig} {samples : SampleSet} {partitioning : Partitioning}
    {assignments : List (List Transaction)}
    (h : prepare config samples partitioning = .ok assignments) :
    partitioning.assign config.threads = .ok assignments ∧
      ∀ transactions ∈ assignments, ∀ tx ∈ transactions, ∀ cmd ∈ tx, cmd.index < samples.size := by
  obtain ⟨_, _, h⟩ := exists_of_bind_eq_ok h
  obtain ⟨found, hAssigned, h⟩ := exists_of_bind_eq_ok h
  obtain ⟨_, hChecked, h⟩ := exists_of_bind_eq_ok h
  cases h
  exact ⟨hAssigned, checkIndices_eq_ok_iff.mp (Failure.ofError_eq_ok hChecked)⟩

end StoreBench
