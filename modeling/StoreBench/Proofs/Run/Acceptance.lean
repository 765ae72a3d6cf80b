import StoreBench.Proofs.Replay.Uninterrupted
import StoreBench.Proofs.Run.Coverage
import StoreBench.Run.Report

/-! Runs that go through. A run may start if there are enough transactions and all their positions
are those of pairs; and it comes to a summary, and to a report, if its tallies are words. -/
namespace StoreBench

section Checks

namespace Run

variable {config : RunConfig} {samples : SampleSet}

/-- A run whose transactions could be assigned may start if it refers to pairs alone. -/
theorem prepare_of_assign {partitioning : Partitioning} {assignments : List (List Transaction)}
    (hRatio : 1 ≤ config.layout.smtRatio) (hThreads : 1 ≤ config.threads)
    (hAssigned : partitioning.assign config.threads = .ok assignments)
    (hInRange : ∀ transactions ∈ assignments, ∀ tx ∈ transactions, ∀ cmd ∈ tx,
      cmd.index < samples.size) :
    prepare config samples partitioning = .ok assignments := by
  have hValid : config.validate = .ok () := by
    rw [RunConfig.validate, if_neg (by omega), CpuLayout.validate, if_neg (by omega)]
  rw [prepare, hValid, hAssigned]
  dsimp only [Failure.ofError, Except.mapError, bind, Except.bind]
  rw [checkIndices_eq_ok_iff.mpr hInRange]
  rfl

theorem prepare_shared {workload : Workload} (hRatio : 1 ≤ config.layout.smtRatio)
    (hThreads : 1 ≤ config.threads) (hEnough : config.threads ≤ workload.length)
    (hRoom : config.threads * Range.width ≤ memoryMax)
    (hInRange : ∀ tx ∈ workload, ∀ cmd ∈ tx, cmd.index < samples.size) :
    ∃ assignments, prepare config samples (.shared workload) = .ok assignments ∧
      (assignments.map List.length).sum = workload.length := by
  have hAssigned : ∃ assignments,
      (Partitioning.shared workload).assign config.threads = .ok assignments := by
    rw [Partitioning.assign, partition_eq, if_neg (by omega), if_neg (by omega), if_pos hRoom]
    exact ⟨_, rfl⟩
  obtain ⟨assignments, hAssigned⟩ := hAssigned
  obtain ⟨hFlatten, _⟩ := Partitioning.assign_shared hAssigned
  refine ⟨assignments, prepare_of_assign hRatio hThreads hAssigned ?_, ?_⟩
  · intro transactions hTransactions tx hTx
    apply hInRange tx
    rw [← hFlatten]
    exact List.mem_flatten_of_mem hTransactions hTx
  · rw [← List.length_flatten, hFlatten]

theorem prepare_preSplit {pool : Pool} {each : Nat} (hRatio : 1 ≤ config.layout.smtRatio)
    (hThreads : 1 ≤ config.threads) (hEnough : config.threads ≤ pool.length)
    (hEach : ∀ workload ∈ pool, workload.length = each)
    (hInRange : ∀ workload ∈ pool, ∀ tx ∈ workload, ∀ cmd ∈ tx, cmd.index < samples.size) :
    ∃ assignments, prepare config samples (.preSplit pool) = .ok assignments ∧
      (assignments.map List.length).sum = config.threads * each := by
  have hAssigned : (Partitioning.preSplit pool).assign config.threads =
      .ok (pool.take config.threads) := by
    rw [Partitioning.assign, if_neg (by omega)]
  refine ⟨pool.take config.threads, prepare_of_assign hRatio hThreads hAssigned ?_, ?_⟩
  · intro workload hWorkload
    exact hInRange workload (List.mem_of_mem_take hWorkload)
  · have hLengths : (pool.take config.threads).map List.length =
        List.replicate config.threads each := by
      rw [List.eq_replicate_iff]
      refine ⟨by simpa using hEnough, ?_⟩
      intro length hLength
      obtain ⟨workload, hWorkload, rfl⟩ := List.mem_map.mp hLength
      exact hEach workload (List.mem_of_mem_take hWorkload)
    rw [hLengths, List.sum_replicate_nat]

end Run

end Checks

namespace Run

section Summaries

variable {σ τ : Type} {store : Store σ τ} {samples : SampleSet} {config : RunConfig}
  {partitioning : Partitioning} {assignments : List (List Transaction)} {tallies : List Tally}
  {state : σ} (windows : Nat → Window) (host : Host) (hPin : config.layout.pin = false)
  (hPrepared : prepare config samples partitioning = .ok assignments)
include hPin hPrepared

/-- Workers that all got through come to a summary, if their totals are words. -/
theorem exists_summary
    (hTallies : (replays store samples config.retries assignments state).1 = tallies.map .ok)
    (hFits : (tallies.map Tally.counters).sum.fits = true) :
    ∃ summary, (Id.run (run (.noted windows) host config store samples partitioning state) :
        RunOutcome σ).result = .ok summary ∧
      summary.totals = (tallies.map Tally.counters).sum := by
  have hResult := run_unpinned windows host store samples hPin hPrepared state
  rw [← results_counters windows] at hFits ⊢
  rw [hTallies, join_finished, Except.bind,
    Summary.aggregate_of_fits (results_pairwise windows tallies) hFits] at hResult
  exact ⟨_, hResult, rfl⟩

/-- Totals that are no words are an overflow. -/
theorem fits_of_ne_overflow
    (hTallies : (replays store samples config.retries assignments state).1 = tallies.map .ok)
    (hTotals : (Id.run (run (.noted windows) host config store samples partitioning state) :
      RunOutcome σ).result ≠ .error (.fault .overflow)) :
    (tallies.map Tally.counters).sum.fits = true := by
  have hResult := run_unpinned windows host store samples hPin hPrepared state
  rw [hTallies, join_finished, Except.bind] at hResult
  by_contra hOver
  rw [← results_counters windows, Bool.not_eq_true] at hOver
  rw [Summary.aggregate_overflow hOver] at hResult
  exact hTotals hResult

/-- Whatever the store answers, a run on it settles all transactions that it is to replay. -/
theorem exists_settled (hReturns : store.Returns)
    (hOverflow : ∀ replayed ∈ (replays store samples config.retries assignments state).1,
      replayed ≠ .error .overflow)
    (hTotals : (Id.run (run (.noted windows) host config store samples partitioning state) :
      RunOutcome σ).result ≠ .error (.fault .overflow)) :
    ∃ summary, (Id.run (run (.noted windows) host config store samples partitioning state) :
        RunOutcome σ).result = .ok summary ∧
      summary.totals.assigned = (assignments.map List.length).sum ∧
      summary.totals.committed + summary.totals.canceledTxs = summary.totals.assigned := by
  obtain ⟨_, hInRange⟩ := prepare_ok hPrepared
  obtain ⟨tallies, hTallies, hAccounts⟩ := replays_accounts hReturns hInRange state hOverflow
  obtain ⟨hAssigned, hSettled⟩ := accounts_sum hAccounts
  obtain ⟨summary, hResult, hSum⟩ := exists_summary windows host hPin hPrepared hTallies
    (fits_of_ne_overflow windows host hPin hPrepared hTallies hTotals)
  rw [← hSum] at hAssigned hSettled
  exact ⟨summary, hResult, hAssigned, hSettled.settled.trans hAssigned.symm⟩

end Summaries

end Run

namespace VersionedStore

variable {s : VersionedStore} {samples : SampleSet}

/-- Workers that take their turns on a store of their own are all done at the first attempt. -/
theorem Serves.replays (h : s.Serves samples) {assignments : List (List Transaction)}
    (hInRange : ∀ transactions ∈ assignments, ∀ tx ∈ transactions, ∀ cmd ∈ tx,
      cmd.index < samples.size)
    (hWords : (assignments.map List.length).sum ≤ wordMax) (retries : Nat) :
    ∃ tallies : List Tally,
      (Run.replays calls samples retries assignments s).1 = tallies.map .ok ∧
      (tallies.map Tally.counters).sum = .perfect (assignments.map List.length).sum := by
  induction assignments generalizing s with
  | nil => exact ⟨[], rfl, rfl⟩
  | cons transactions rest ih =>
      obtain ⟨hFirst, hRest⟩ := List.forall_mem_cons.mp hInRange
      rw [List.map_cons, List.sum_cons] at hWords
      obtain ⟨tally, reached, hRan, hTally, hReached, _⟩ := h.replay hFirst (by omega) retries
      obtain ⟨tallies, hTallies, hSum⟩ := ih hReached hRest (by omega)
      refine ⟨tally :: tallies, ?_, ?_⟩
      · rw [Run.replays, hRan]
        simp [hTallies]
      · rw [List.map_cons, List.sum_cons, hTally, hSum, List.map_cons, List.sum_cons]
        rfl

/-- A run on such a store is perfect, if its transactions can be counted. -/
theorem Serves.run (h : s.Serves samples) {config : RunConfig} {partitioning : Partitioning}
    {assignments : List (List Transaction)} (hPin : config.layout.pin = false)
    (hPrepared : Run.prepare config samples partitioning = .ok assignments)
    (hWords : (assignments.map List.length).sum ≤ wordMax) (windows : Nat → Window)
    (host : Host) :
    ∃ summary, (Id.run (Run.run (.noted windows) host config calls samples partitioning s) :
        RunOutcome VersionedStore).result = .ok summary ∧
      summary.totals = .perfect (assignments.map List.length).sum := by
  obtain ⟨_, hInRange⟩ := Run.prepare_ok hPrepared
  obtain ⟨tallies, hTallies, hSum⟩ := h.replays hInRange hWords config.retries
  have hFits := Counters.perfect_fits hWords
  rw [← hSum] at hFits ⊢
  exact Run.exists_summary windows host hPin hPrepared hTallies hFits

end VersionedStore

/-- A summary in which every transaction was settled can be reported. -/
theorem Report.exists_ofSummary {summary : Summary}
    (h : summary.totals.committed + summary.totals.canceledTxs = summary.totals.assigned)
    (unit : TimeUnit) :
    ∃ report, ofSummary summary unit = .ok report ∧ report.totals = summary.totals := by
  have hThroughput : ∃ throughput, summary.throughput unit = .ok throughput := by
    rw [Summary.throughput, Summary.completed_eq h]
    split
    · exact ⟨_, rfl⟩
    · exact ⟨_, rfl⟩
  obtain ⟨throughput, hThroughput⟩ := hThroughput
  rw [ofSummary, hThroughput]
  exact ⟨_, rfl, rfl⟩

end StoreBench
