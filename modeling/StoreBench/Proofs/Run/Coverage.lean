import Mathlib
import StoreBench.Proofs.Replay.Accounting
import StoreBench.Proofs.Run.Aggregation
import StoreBench.Proofs.Run.Spread
import StoreBench.Proofs.Run.Workers

/-! A run as a whole. Its workers replay all of its transactions, each of them once, and its summary
adds up what they tallied. That holds for every store, as what a store answers only moves tallies
from one kind to another. The workers take their turns one after the other, but a store that counts
its calls can answer each worker as it likes, so that is no restriction. -/
namespace StoreBench

namespace Summary

/-- Results in worker order are summed up as they are, if the totals are words. -/
theorem aggregate_of_fits {results : List WorkerResult}
    (hOrder : results.Pairwise fun a b => a.worker ≤ b.worker)
    (hFits : (results.map WorkerResult.counters).sum.fits = true) :
    aggregate results = .ok
      { workers := results, totals := (results.map WorkerResult.counters).sum,
        duration := span results } := by
  rw [aggregate_eq, if_pos hFits, List.mergeSort_of_pairwise (by simpa using hOrder)]

theorem aggregate_overflow {results : List WorkerResult}
    (hOver : (results.map WorkerResult.counters).sum.fits = false) :
    aggregate results = .error .overflow := by
  rw [aggregate_eq, if_neg (Bool.eq_false_iff.mp hOver)]

/-- Nothing but an overflow keeps a total from being a word. -/
theorem aggregate_ok {results : List WorkerResult}
    (hOrder : results.Pairwise fun a b => a.worker ≤ b.worker)
    (hOverflow : aggregate results ≠ .error .overflow) :
    aggregate results = .ok
      { workers := results, totals := (results.map WorkerResult.counters).sum,
        duration := span results } := by
  cases hFits : (results.map WorkerResult.counters).sum.fits with
  | true => exact aggregate_of_fits hOrder hFits
  | false => exact absurd (aggregate_overflow hFits) hOverflow

/-- What was not canceled was committed, so the difference of the totals is no less than zero. -/
theorem completed_eq {summary : Summary}
    (h : summary.totals.committed + summary.totals.canceledTxs = summary.totals.assigned) :
    summary.completed = .ok summary.totals.committed := by
  rw [completed, subWords, ← h, if_pos (Nat.le_add_left _ _), Nat.add_sub_cancel]

end Summary

namespace Run

variable {σ τ : Type} {store : Store σ τ} {samples : SampleSet} {retries : Nat}
  {assignments : List (List Transaction)} {tallies : List Tally}

/-- The tally of a worker that replayed these transactions to the end. -/
structure Accounts (retries : Nat) (tally : Tally) (transactions : List Transaction) : Prop where
  assigned : tally.counters.assigned = transactions.length
  settled : Counters.Settled retries transactions.length tally.counters

/-- A store whose calls return loses no worker. -/
theorem replays_accounts (hReturns : store.Returns)
    (hInRange : ∀ transactions ∈ assignments, ∀ tx ∈ transactions, ∀ cmd ∈ tx,
      cmd.index < samples.size) (state : σ)
    (hOverflow : ∀ replayed ∈ (replays store samples retries assignments state).1,
      replayed ≠ .error .overflow) :
    ∃ tallies : List Tally,
      (replays store samples retries assignments state).1 = tallies.map Except.ok ∧
      List.Forall₂ (Accounts retries) tallies assignments := by
  induction assignments generalizing state with
  | nil => exact ⟨[], rfl, .nil⟩
  | cons transactions rest ih =>
      obtain ⟨hFirst, hRest⟩ := List.forall_mem_cons.mp hInRange
      rw [replays] at hOverflow ⊢
      obtain ⟨hFits, hOthers⟩ := List.forall_mem_cons.mp hOverflow
      -- Every worker starts with empty tallies, on whatever the one before it left of the store.
      obtain ⟨course, reached, hCourse⟩ := Store.exists_replayed hReturns hFirst retries state
      obtain ⟨tally, hEnded, hMade⟩ := hCourse.counted (hCourse.fits_of_ne_overflow hFits)
      rw [hEnded] at hOthers ⊢
      obtain ⟨tallies, hTallies, hAccounts⟩ := ih hRest reached hOthers
      refine ⟨tally :: tallies, by rw [List.map_cons, ← hTallies], .cons ?_ hAccounts⟩
      refine ⟨?_, ?_⟩
      · rw [hMade, course.made_assigned, hCourse.length]
      · rw [hMade]
        exact hCourse.settled

/-- Tallies that account for their transactions one by one do so when summed up. -/
theorem accounts_sum (h : List.Forall₂ (Accounts retries) tallies assignments) :
    (tallies.map Tally.counters).sum.assigned = (assignments.map List.length).sum ∧
      Counters.Settled retries (assignments.map List.length).sum
        (tallies.map Tally.counters).sum := by
  induction h with
  | nil => exact ⟨rfl, .assigned 0⟩
  | cons hFirst _ ih =>
      obtain ⟨hAssigned, hSettled⟩ := ih
      simp only [List.map_cons, List.sum_cons]
      refine ⟨?_, hFirst.settled.add hSettled⟩
      rw [← hAssigned, ← hFirst.assigned]
      rfl

section Finished

variable (windows : Nat → Window) (tallies : List Tally)

/-- The results of workers that all got through. -/
def results : List WorkerResult := tallies.zipIdx.map fun entry => finished windows entry.1 entry.2

/-- Threads that have all come to an end are joined to their results. -/
theorem join_finished :
    join (outcomes windows 0 (tallies.map Except.ok)) = .ok (results windows tallies) := by
  have hNone : (tallies.map Except.ok).any (fun result : Except Fault Tally => !result.isOk) =
      false := by
    rw [List.any_map, List.any_eq_false]
    exact fun tally _ => Bool.false_ne_true
  rw [← any_outcomes windows 0] at hNone
  rw [join, joinFrom_finished hNone, outcomes, List.filterMap_map, List.zipIdx_map,
    List.filterMap_map, results, ← List.filterMap_eq_map]
  rfl

theorem results_pairwise : (results windows tallies).Pairwise fun a b => a.worker ≤ b.worker := by
  have hNumbers : ((tallies.zipIdx).map Prod.snd).Pairwise (· ≤ ·) := by
    rw [List.zipIdx_map_snd]
    exact List.pairwise_le_range'
  rw [results, List.pairwise_map]
  rwa [List.pairwise_map] at hNumbers

theorem results_counters :
    (results windows tallies).map WorkerResult.counters = tallies.map Tally.counters := by
  rw [results, List.map_map]
  nth_rewrite 2 [← List.zipIdx_map_fst 0 tallies]
  rw [List.map_map]
  rfl

end Finished

/-- A run on a store whose calls return replays every transaction that it is to replay with one of
its workers, whatever the store answers. A shared workload comes back when the workers' transactions
are put one after the other; of a pool, each worker gets the entry with its number, and the rest is
left out. No command refers to a pair that is not there. The summary has one result for each worker,
and its totals are their sums: all transactions assigned were committed or canceled, all attempts
committed or failed, and the completed transactions are the committed ones. -/
theorem run_covers (windows : Nat → Window) (host : Host) (config : RunConfig)
    (store : Store σ τ) (hReturns : store.Returns) (samples : SampleSet)
    (partitioning : Partitioning) (assignments : List (List Transaction)) (state : σ)
    (hPin : config.layout.pin = false)
    (hPrepared : prepare config samples partitioning = .ok assignments)
    (hOverflow : ∀ replayed ∈ (replays store samples config.retries assignments state).1,
      replayed ≠ .error .overflow)
    (hTotals : (Id.run (run (.noted windows) host config store samples partitioning state) :
      RunOutcome σ).result ≠ .error (.fault .overflow)) :
    ∃ (tallies : List Tally) (summary : Summary),
      (replays store samples config.retries assignments state).1 = tallies.map Except.ok ∧
      (Id.run (run (.noted windows) host config store samples partitioning state) :
        RunOutcome σ).result = .ok summary ∧
      (match partitioning with
        | .shared workload =>
          assignments.flatten = workload ∧ summary.totals.assigned = workload.length
        | .preSplit pool =>
          assignments = pool.take config.threads ∧
            summary.totals.assigned = ((pool.take config.threads).map List.length).sum) ∧
      assignments.length = config.threads ∧
      (∀ transactions ∈ assignments, ∀ tx ∈ transactions, ∀ cmd ∈ tx, cmd.index < samples.size) ∧
      summary.workers = results windows tallies ∧
      List.Forall₂ (Accounts config.retries) tallies assignments ∧
      summary.threads = config.threads ∧
      summary.totals = (summary.workers.map WorkerResult.counters).sum ∧
      summary.totals.committed + summary.totals.canceledTxs = summary.totals.assigned ∧
      summary.totals.attempts = summary.totals.committed + summary.totals.failures ∧
      summary.completed = .ok summary.totals.committed := by
  obtain ⟨hAssigned, hInRange⟩ := prepare_ok hPrepared
  obtain ⟨tallies, hTallies, hAccounts⟩ := replays_accounts hReturns hInRange state hOverflow
  obtain ⟨hTotal, hSettled⟩ := accounts_sum hAccounts
  have hResult := run_unpinned windows host store samples hPin hPrepared state
  rw [hTallies, join_finished] at hResult
  have hAggregated := Summary.aggregate_ok (results_pairwise windows tallies) (by
    intro hError
    refine hTotals (hResult.trans ?_)
    rw [Except.bind, hError]
    rfl)
  rw [Except.bind, hAggregated] at hResult
  rw [← results_counters windows] at hTotal hSettled
  have hThreads : assignments.length = config.threads := Partitioning.length_assign hAssigned
  refine ⟨tallies, _, hTallies, hResult, ?_, hThreads, hInRange, rfl, hAccounts, ?_, rfl,
    hSettled.settled.trans hTotal.symm, hSettled.attempts, ?_⟩
  · cases partitioning with
    | shared workload =>
        obtain ⟨hFlatten, _⟩ := Partitioning.assign_shared hAssigned
        exact ⟨hFlatten, by rw [hTotal, ← List.length_flatten, hFlatten]⟩
    | preSplit pool =>
        obtain ⟨hTake, _⟩ := Partitioning.assign_preSplit hAssigned
        exact ⟨hTake, by rw [hTotal, hTake]⟩
  · rw [Summary.threads, results, List.length_map, List.length_zipIdx, hAccounts.length_eq,
      hThreads]
  · exact Summary.completed_eq (hSettled.settled.trans hTotal.symm)

/-- Two workers share three transactions, one of which is canceled. -/
theorem run_covers_shared :
    let store := Script.store { commits := [.ok, .wwConflict, .ok] }
    let samples : SampleSet := #[⟨[1], [10]⟩]
    let config : RunConfig := { threads := 2, layout := { pin := false } }
    let workload : Workload := [[⟨.get, 0⟩], [⟨.put, 0⟩], [⟨.get, 0⟩, ⟨.put, 0⟩]]
    let assignments : List (List Transaction) :=
      [[[⟨.get, 0⟩], [⟨.put, 0⟩]], [[⟨.get, 0⟩, ⟨.put, 0⟩]]]
    let outcome : RunOutcome ScriptPosition := Id.run
      (run (.noted fun _ => {}) {} config store samples (.shared workload) {})
    store.Returns ∧ prepare config samples (.shared workload) = .ok assignments ∧
      (∀ replayed ∈ (replays store samples config.retries assignments {}).1,
        replayed ≠ .error .overflow) ∧
      outcome.result ≠ .error (.fault .overflow) ∧
      ∃ summary, outcome.result = .ok summary ∧ summary.totals.assigned = 3 ∧
        summary.completed = .ok 2 := by
  have hCut : prepare { threads := 2, layout := { pin := false } } #[⟨[1], [10]⟩]
      (.shared [[⟨.get, 0⟩], [⟨.put, 0⟩], [⟨.get, 0⟩, ⟨.put, 0⟩]]) =
      .ok [[[⟨.get, 0⟩], [⟨.put, 0⟩]], [[⟨.get, 0⟩, ⟨.put, 0⟩]]] := rfl
  have hRan : ((Id.run (run (.noted fun _ => {}) {} { threads := 2, layout := { pin := false } }
      (Script.store { commits := [.ok, .wwConflict, .ok] }) #[⟨[1], [10]⟩]
      (.shared [[⟨.get, 0⟩], [⟨.put, 0⟩], [⟨.get, 0⟩, ⟨.put, 0⟩]]) {}) :
      RunOutcome ScriptPosition).result).map Summary.totals =
      .ok { assigned := 3, attempts := 3, committed := 2, failures := 1, wwConflicts := 1,
            canceledTxs := 1 } := by cbv
  intro store samples config workload assignments outcome
  have hReturns : store.Returns := Script.store_returns rfl
  have hPrepared : prepare config samples (.shared workload) = .ok assignments := hCut
  have hOverflow : ∀ replayed ∈ (replays store samples config.retries assignments {}).1,
      replayed ≠ .error .overflow := by decide +kernel
  change outcome.result.map Summary.totals = _ at hRan
  have hTotals : outcome.result ≠ .error (.fault .overflow) :=
    ne_error_of_map_eq_ok hRan (.fault .overflow)
  obtain ⟨tallies, summary, _, hResult, ⟨_, hAssigned⟩, _, _, _, _, _, _, _, _, hCompleted⟩ :=
    run_covers (fun _ => {}) {} config store hReturns samples (.shared workload) assignments {} rfl
      hPrepared hOverflow hTotals
  rw [show outcome.result = _ from hResult] at hRan
  have hCommitted : summary.totals.committed = 2 := congrArg Counters.committed (Except.ok.inj hRan)
  exact ⟨hReturns, hPrepared, hOverflow, hTotals, summary, hResult, hAssigned,
    hCompleted.trans (congrArg Except.ok hCommitted)⟩

end Run

end StoreBench
