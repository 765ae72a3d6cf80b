import Mathlib.Data.List.Permutation
import StoreBench.Proofs.Counters
import StoreBench.Proofs.Sorting
import StoreBench.Run.Summary

/-! The results of all workers taken together. Their order does not matter: they are sorted by the
numbers of the workers, every tally is added up, and the duration lasts from the earliest start to
the latest end, so no worker took longer than that. -/
namespace StoreBench

/-- All tallies added up, one by one. -/
structure Totals (list : List Counters) (totals : Counters) : Prop where
  assigned : totals.assigned = (list.map Counters.assigned).sum
  attempts : totals.attempts = (list.map Counters.attempts).sum
  committed : totals.committed = (list.map Counters.committed).sum
  failures : totals.failures = (list.map Counters.failures).sum
  rwConflicts : totals.rwConflicts = (list.map Counters.rwConflicts).sum
  wwConflicts : totals.wwConflicts = (list.map Counters.wwConflicts).sum
  readSnapshotMisses : totals.readSnapshotMisses = (list.map Counters.readSnapshotMisses).sum
  writeSnapshotMisses : totals.writeSnapshotMisses = (list.map Counters.writeSnapshotMisses).sum
  invalidTxs : totals.invalidTxs = (list.map Counters.invalidTxs).sum
  canceledTxs : totals.canceledTxs = (list.map Counters.canceledTxs).sum

theorem Counters.totals_sum (list : List Counters) : Totals list list.sum where
  assigned := tally_sum rfl (fun _ _ => rfl) list
  attempts := tally_sum rfl (fun _ _ => rfl) list
  committed := tally_sum rfl (fun _ _ => rfl) list
  failures := tally_sum rfl (fun _ _ => rfl) list
  rwConflicts := tally_sum rfl (fun _ _ => rfl) list
  wwConflicts := tally_sum rfl (fun _ _ => rfl) list
  readSnapshotMisses := tally_sum rfl (fun _ _ => rfl) list
  writeSnapshotMisses := tally_sum rfl (fun _ _ => rfl) list
  invalidTxs := tally_sum rfl (fun _ _ => rfl) list
  canceledTxs := tally_sum rfl (fun _ _ => rfl) list

/-- How long a run took: from the earliest start to the latest end of its workers. It took no time
if there are no workers, or if the latest end comes before the earliest start. -/
structure Lasts (results : List WorkerResult) (duration : Duration) : Prop where
  nobody : results = [] → duration = 0
  window : results ≠ [] → ∃ first ∈ results, ∃ last ∈ results,
    (∀ result ∈ results, first.window.start ≤ result.window.start) ∧
    (∀ result ∈ results, result.window.finish ≤ last.window.finish) ∧
    (duration : Int) = max ((last.window.finish : Int) - first.window.start) 0
  elapsed_le : ∀ result ∈ results, result.window.elapsed ≤ duration

theorem min?_of_perm {list reordered : List Nat} (h : reordered.Perm list) :
    reordered.min? = list.min? := by
  apply Option.ext
  intro least
  simp only [List.min?_eq_some_iff, h.mem_iff]

theorem max?_of_perm {list reordered : List Nat} (h : reordered.Perm list) :
    reordered.max? = list.max? := by
  apply Option.ext
  intro greatest
  simp only [List.max?_eq_some_iff, h.mem_iff]

namespace Summary

variable {results reordered : List WorkerResult}

theorem span_of_perm (h : reordered.Perm results) : span reordered = span results := by
  rw [span, span, min?_of_perm (h.map _), max?_of_perm (h.map _)]

/-- Where there are workers, one of them starts first and one of them ends last. -/
theorem exists_span_eq (hSome : results ≠ []) :
    ∃ first ∈ results, ∃ last ∈ results,
      (∀ result ∈ results, first.window.start ≤ result.window.start) ∧
      (∀ result ∈ results, result.window.finish ≤ last.window.finish) ∧
      span results = Duration.between first.window.start last.window.finish := by
  have hStarts : (results.map (·.window.start)).min? ≠ none := by simpa using hSome
  have hEnds : (results.map (·.window.finish)).max? ≠ none := by simpa using hSome
  obtain ⟨start, hStart⟩ := Option.ne_none_iff_exists'.mp hStarts
  obtain ⟨finish, hFinish⟩ := Option.ne_none_iff_exists'.mp hEnds
  have hSpan : span results = Duration.between start finish := by rw [span, hStart, hFinish]
  rw [List.min?_eq_some_iff, List.mem_map, List.forall_mem_map] at hStart
  rw [List.max?_eq_some_iff, List.mem_map, List.forall_mem_map] at hFinish
  obtain ⟨⟨first, hFirst, rfl⟩, hEarliest⟩ := hStart
  obtain ⟨⟨last, hLast, rfl⟩, hLatest⟩ := hFinish
  exact ⟨first, hFirst, last, hLast, hEarliest, hLatest, hSpan⟩

theorem lasts_span (results : List WorkerResult) : Lasts results (span results) := by
  constructor
  case nobody =>
    rintro rfl
    rfl
  case window =>
    intro hSome
    obtain ⟨first, hFirst, last, hLast, hEarliest, hLatest, hSpan⟩ := exists_span_eq hSome
    refine ⟨first, hFirst, last, hLast, hEarliest, hLatest, ?_⟩
    rw [hSpan, Duration.between, ← Int.toNat_sub, Int.ofNat_toNat]
  case elapsed_le =>
    intro result hResult
    obtain ⟨first, _, last, _, hEarliest, hLatest, hSpan⟩ :=
      exists_span_eq (List.ne_nil_of_mem hResult)
    calc result.window.elapsed = result.window.finish - result.window.start := rfl
      _ ≤ last.window.finish - result.window.start :=
        Nat.sub_le_sub_right (hLatest result hResult) _
      _ ≤ last.window.finish - first.window.start :=
        Nat.sub_le_sub_left (hEarliest result hResult) _
      _ = span results := hSpan.symm

/-- Results are sorted, and summed up if the totals are words. -/
theorem aggregate_eq (results : List WorkerResult) :
    aggregate results =
      if (results.map WorkerResult.counters).sum.fits then
        .ok { workers := results.mergeSort fun a b => a.worker ≤ b.worker,
              totals := (results.map WorkerResult.counters).sum, duration := span results }
      else .error .overflow := by
  have hSorted := List.mergeSort_perm results fun a b => a.worker ≤ b.worker
  rw [aggregate, Counters.sum_eq, (hSorted.map WorkerResult.counters).sum_eq, span_of_perm hSorted,
    Counters.add, zero_add]
  split
  · rfl
  · rfl

/-- Results of different workers are summed up alike in whatever order they are. The workers come by
increasing numbers, each total is the sum of this tally over all of them, and the run lasts from the
earliest start to the latest end. Nothing but a total that is no word can go wrong. -/
theorem aggregate_orderless
    (hDistinct : (results.map WorkerResult.worker).Nodup) :
    ∃ workers totals duration,
      workers.Perm results ∧ workers.Pairwise (fun a b => a.worker < b.worker) ∧
      Totals (results.map WorkerResult.counters) totals ∧ Lasts results duration ∧
      ∀ reordered, reordered.Perm results →
        aggregate reordered =
          if totals.fits then .ok { workers, totals, duration } else .error .overflow := by
  have hSorted := List.mergeSort_perm results fun a b => a.worker ≤ b.worker
  have hApart := List.inj_on_of_nodup_map hDistinct
  refine ⟨_, _, _, hSorted, ?_, Counters.totals_sum _, lasts_span results, ?_⟩
  · have hDifferent := ((hSorted.map WorkerResult.worker).nodup_iff).mpr hDistinct
    rw [List.Nodup, List.pairwise_map] at hDifferent
    have hOrdered := mergeSort_pairwise WorkerResult.worker results
    exact hOrdered.imp₂ (fun _ _ => lt_of_le_of_ne) hDifferent
  · intro reordered h
    rw [aggregate_eq, (h.map WorkerResult.counters).sum_eq, span_of_perm h,
      mergeSort_of_perm WorkerResult.worker (fun a ha b hb => hApart ha hb) h]

/-- Three results in two orders. The window of the last worker ends before it starts. -/
theorem aggregate_orderless_three :
    let first : WorkerResult := ⟨0, none, { assigned := 5, canceledTxs := 2 }, ⟨1, 6⟩⟩
    let second : WorkerResult := ⟨1, some 7, { attempts := 4 }, ⟨3, 8⟩⟩
    let third : WorkerResult := ⟨2, none, { assigned := 3, failures := 1 }, ⟨9, 4⟩⟩
    let summary : Summary :=
      ⟨[first, second, third],
        { assigned := 8, attempts := 4, failures := 1, canceledTxs := 2 }, 7⟩
    ([third, first, second].map WorkerResult.worker).Nodup ∧
      aggregate [third, first, second] = .ok summary ∧
      aggregate [second, first, third] = .ok summary ∧
      Lasts [third, first, second] 7 := by
  intro first second third summary
  have hDistinct : ([third, first, second].map WorkerResult.worker).Nodup := by decide
  have hSummary : aggregate [third, first, second] = .ok summary := by cbv
  obtain ⟨workers, totals, duration, _, _, _, hLasts, hAggregated⟩ := aggregate_orderless hDistinct
  have hFirst := hAggregated _ (.refl _)
  have hOther := hAggregated [second, first, third] (by decide)
  refine ⟨hDistinct, hSummary, (hOther.trans hFirst.symm).trans hSummary, ?_⟩
  rw [hSummary] at hFirst
  split at hFirst
  · have hDuration : summary.duration = duration :=
      congrArg Summary.duration (Except.ok.inj hFirst)
    rwa [← hDuration] at hLasts
  · cases hFirst

end Summary

end StoreBench
