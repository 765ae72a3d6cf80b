import Mathlib
import StoreBench.Proofs.Run.Spread
import StoreBench.Proofs.Run.Workers
import StoreBench.Store.Scripted

/-! Pinning as advice. A worker that cannot be pinned runs where it is, so pinning leaves a run as
it is but for the CPUs in its results. One thing can go wrong: the number of a CPU is a sum, and a
worker for which that sum is no word is lost before it asks for a CPU at all. -/
namespace StoreBench

/-- The configuration with pinning switched on or off. -/
def RunConfig.pinning (config : RunConfig) (pin : Bool) : RunConfig :=
  { config with layout := { config.layout with pin } }

/-- The number of the worker's CPU is a word. -/
def CpuLayout.Reaches (layout : CpuLayout) (host : Host) (worker : Nat) : Prop :=
  layout.offset + worker % layout.physicalCpus host ≤ wordMax

theorem CpuLayout.exists_place_iff {layout : CpuLayout} (hPin : layout.pin = true) (host : Host)
    (worker : Nat) :
    (∃ placement, layout.place host worker = .ok placement) ↔ layout.Reaches host worker := by
  rw [place, if_pos hPin, cpuFor, addWords, Reaches]
  split_ifs with hWord
  · dsimp only
    split <;> simp [hWord]
  · simp [hWord]

/-- A result without the CPU that the worker was pinned to. -/
def WorkerResult.unplaced (result : WorkerResult) : WorkerResult := { result with cpu := none }

def Summary.unplaced (summary : Summary) : Summary :=
  { summary with workers := summary.workers.map WorkerResult.unplaced }

/-- The CPUs play no part when results are summed up. -/
theorem Summary.aggregate_unplaced (results : List WorkerResult) :
    aggregate (results.map WorkerResult.unplaced) = (aggregate results).map unplaced := by
  have hSorted := List.map_mergeSort (r := fun a b : WorkerResult => decide (a.worker ≤ b.worker))
    (s := fun a b => decide (a.worker ≤ b.worker)) (f := WorkerResult.unplaced) (l := results)
    fun _ _ _ _ => rfl
  have hCounters (workers : List WorkerResult) :
      (workers.map WorkerResult.unplaced).map WorkerResult.counters =
        workers.map WorkerResult.counters := by
    rw [List.map_map]
    rfl
  have hSpan (workers : List WorkerResult) :
      span (workers.map WorkerResult.unplaced) = span workers := by
    simp only [span, List.map_map]
    rfl
  rw [aggregate, aggregate, ← hSorted, hCounters]
  cases Counters.sum ((results.mergeSort fun a b => a.worker ≤ b.worker).map
    WorkerResult.counters) with
  | error fault => rfl
  | ok totals => simp [bind, Except.bind, Except.map, pure, Except.pure, unplaced, hSpan]

/-- There is one worker for each result. -/
theorem Summary.threads_of_aggregate {results : List WorkerResult} {summary : Summary}
    (h : aggregate results = .ok summary) : summary.threads = results.length := by
  obtain ⟨totals, _, hSummary⟩ := exists_of_bind_eq_ok h
  cases hSummary
  exact List.length_mergeSort results

namespace Run

variable {σ τ : Type}

/-- Threads are joined to results exactly if all of them have one. -/
theorem join_eq_ok_iff {outcomes : List WorkerOutcome} {results : List WorkerResult} :
    join outcomes = .ok results ↔ outcomes.map (·.result) = results.map .ok := by
  have hAll (earlier : List WorkerOutcome) (h : earlier.any WorkerOutcome.isLost = false) :
      earlier.map (·.result) = (earlier.filterMap (·.result.toOption)).map .ok := by
    induction earlier with
    | nil => rfl
    | cons outcome rest ih =>
        rw [List.any_cons, Bool.or_eq_false_iff] at h
        obtain ⟨result, hResult⟩ := exists_result h.1
        rw [List.map_cons, List.filterMap_cons, hResult, ih h.2]
        rfl
  have hInjective : Function.Injective (Except.ok : WorkerResult → Except Fault WorkerResult) :=
    fun _ _ h => Except.ok.inj h
  rcases finished_or_lost outcomes with hFinished | ⟨earlier, outcome, later, rfl, hEarlier, hLost⟩
  · rw [join, joinFrom_finished hFinished, hAll outcomes hFinished,
      (List.map_injective_iff.mpr hInjective).eq_iff]
    simp [Failure.ofError, Except.mapError]
  · rw [join, joinFrom_lost hEarlier hLost]
    constructor
    · intro hJoined
      dsimp only at hJoined
      split at hJoined <;> cases hJoined
    · intro hResults
      have hMem : outcome.result ∈ (earlier ++ outcome :: later).map (·.result) := by simp
      rw [hResults] at hMem
      obtain ⟨result, _, hResult⟩ := List.mem_map.mp hMem
      rw [WorkerOutcome.isLost, ← hResult] at hLost
      cases hLost

variable (windows : Nat → Window) (host : Host) (config : RunConfig) (store : Store σ τ)
  (samples : SampleSet)

/-- A run that came to a summary may start, and all of its workers have results. -/
theorem exists_of_run_eq_ok {partitioning : Partitioning} {state : σ} {summary : Summary}
    (h : (run (.noted windows) host config store samples partitioning state :
      Id (RunOutcome σ)).result = .ok summary) :
    ∃ assignments results, prepare config samples partitioning = .ok assignments ∧
      (turns windows host config store samples 0 assignments state).1.map (·.result) =
        results.map .ok ∧
      Summary.aggregate results = .ok summary := by
  cases hPrepared : prepare config samples partitioning with
  | error failure =>
      rw [run, hPrepared] at h
      cases failure <;> cases h
  | ok assignments =>
      rw [run_joined windows host store samples hPrepared] at h
      obtain ⟨results, hJoined, hSummary⟩ := exists_of_bind_eq_ok h
      refine ⟨assignments, results, rfl, join_eq_ok_iff.mp hJoined, ?_⟩
      cases hAggregated : Summary.aggregate results with
      | error fault =>
          rw [hAggregated] at hSummary
          cases hSummary
      | ok found =>
          rw [hAggregated] at hSummary
          cases hSummary
          rfl

/-- A worker whose placement failed has no result. -/
theorem exists_place_of_result {worker : Nat} {transactions : List Transaction} {state : σ}
    {result : WorkerResult}
    (h : (work (.noted windows) host config store samples worker transactions state :
      Id (WorkerOutcome × σ)).1.result = .ok result) :
    ∃ placement, config.layout.place host worker = .ok placement := by
  rw [work] at h
  cases hPlace : config.layout.place host worker with
  | error fault =>
      rw [hPlace] at h
      cases h
  | ok placement => exact ⟨placement, rfl⟩

/-- Wherever a worker is placed, it replays the same. -/
theorem work_pinned {worker : Nat} (hReaches : config.layout.Reaches host worker)
    (transactions : List Transaction) (state : σ) :
    let pinned : WorkerOutcome × σ := Id.run
      (work (.noted windows) host (config.pinning true) store samples worker transactions state)
    let plain : WorkerOutcome × σ := Id.run
      (work (.noted windows) host (config.pinning false) store samples worker transactions state)
    pinned.1.result.map WorkerResult.unplaced = plain.1.result ∧ pinned.2 = plain.2 := by
  have hPinned : (config.pinning true).layout.pin = true := rfl
  have hPlain : (config.pinning false).layout.pin = false := rfl
  obtain ⟨placement, hPlace⟩ := (CpuLayout.exists_place_iff hPinned host worker).mpr hReaches
  rw [work_unpinned windows host store samples hPlain, work, hPlace]
  cases hReplayed : ((store.replay samples transactions config.retries {}).on state).1 with
  | error fault =>
      constructor
      · simp [Id.run, Stopwatch.noted, pure, bind, RunConfig.pinning, hReplayed, Except.map,
          unpinned]
      · rfl
  | ok tally =>
      constructor
      · simp [Id.run, Stopwatch.noted, pure, bind, RunConfig.pinning, hReplayed, Except.map,
          unpinned, finished, WorkerResult.unplaced]
      · rfl

/-- The same for all workers, one after the other. -/
theorem turns_pinned (first : Nat) (assignments : List (List Transaction)) (state : σ)
    (hReaches : ∀ worker < first + assignments.length, config.layout.Reaches host worker) :
    let pinned := turns windows host (config.pinning true) store samples first assignments state
    let plain := turns windows host (config.pinning false) store samples first assignments state
    pinned.1.map (·.result.map WorkerResult.unplaced) = plain.1.map (·.result) ∧
      pinned.2 = plain.2 := by
  induction assignments generalizing first state with
  | nil => exact ⟨rfl, rfl⟩
  | cons transactions rest ih =>
      rw [List.length_cons] at hReaches
      obtain ⟨hResult, hState⟩ :=
        work_pinned windows host config store samples (hReaches first (by omega)) transactions state
      obtain ⟨hResults, hLast⟩ := ih (first + 1)
        (Id.run (work (.noted windows) host (config.pinning false) store samples first transactions
          state)).2 (fun worker hLess => hReaches worker (by omega))
      simp only [turns, hState, List.map_cons]
      exact ⟨congrArg₂ List.cons hResult hResults, hLast⟩

/-- Workers that all have results were all placed. -/
theorem reaches_of_turns {first : Nat} {assignments : List (List Transaction)} {state : σ}
    {results : List WorkerResult}
    (h : (turns windows host (config.pinning true) store samples first assignments state).1.map
      (·.result) = results.map .ok) :
    ∀ worker < assignments.length, config.layout.Reaches host (first + worker) := by
  induction assignments generalizing first state results with
  | nil => simp
  | cons transactions rest ih =>
      cases results with
      | nil => simp [turns] at h
      | cons result results =>
          simp only [turns, List.map_cons, List.cons.injEq] at h
          rintro (_ | worker) hLess
          · have hPinned : (config.pinning true).layout.pin = true := rfl
            exact (CpuLayout.exists_place_iff hPinned host first).mp
              (exists_place_of_result windows host (config.pinning true) store samples h.1)
          · have hRest := ih h.2 worker (by simpa using hLess)
            rwa [Nat.add_right_comm, Nat.add_assoc] at hRest

theorem length_turns (first : Nat) (assignments : List (List Transaction)) (state : σ) :
    (turns windows host config store samples first assignments state).1.length =
      assignments.length := by
  induction assignments generalizing first state with
  | nil => rfl
  | cons transactions rest ih => simp [turns, ih]

/-- What is a list of results under some view is a list of results. -/
theorem exists_results {α β : Type} {view : α → β} {ended : List (Except Fault α)}
    {viewed : List β} (h : ended.map (·.map view) = viewed.map .ok) :
    ∃ results : List α, ended = results.map .ok ∧ results.map view = viewed := by
  induction ended generalizing viewed with
  | nil =>
      refine ⟨[], rfl, ?_⟩
      simpa [eq_comm] using h
  | cons first rest ih =>
      cases viewed with
      | nil => simp at h
      | cons value more =>
          obtain ⟨hFirst, hRest⟩ := List.cons.inj h
          obtain ⟨results, rfl, rfl⟩ := ih hRest
          cases first with
          | error fault => cases hFirst
          | ok result =>
              cases hFirst
              exact ⟨result :: results, rfl, rfl⟩

variable {windows host config store samples} {partitioning : Partitioning} {state : σ}
  {summary : Summary}

/-- Placed workers come to the summary of workers that were left where they are. -/
theorem exists_placed
    (hOk : (run (.noted windows) host (config.pinning false) store samples partitioning state :
      Id (RunOutcome σ)).result = .ok summary)
    (hReaches : ∀ worker < config.threads, config.layout.Reaches host worker) :
    ∃ placed, (run (.noted windows) host (config.pinning true) store samples partitioning state :
        Id (RunOutcome σ)).result = .ok placed ∧
      placed.unplaced = summary ∧ placed.threads = config.threads := by
  obtain ⟨assignments, plain, hPrepared, hPlain, hSummary⟩ :=
    exists_of_run_eq_ok windows host _ store samples hOk
  have hThreads : assignments.length = config.threads :=
    Partitioning.length_assign (prepare_ok hPrepared).1
  have hStarts : prepare (config.pinning true) samples partitioning = .ok assignments := hPrepared
  obtain ⟨hSame, _⟩ := turns_pinned windows host config store samples 0 assignments state (by
    simpa [hThreads] using hReaches)
  rw [hPlain] at hSame
  rw [← Function.comp_def, ← List.map_map] at hSame
  obtain ⟨results, hResults, rfl⟩ := exists_results hSame
  rw [Summary.aggregate_unplaced] at hSummary
  cases hAggregated : Summary.aggregate results with
  | error fault =>
      rw [hAggregated] at hSummary
      cases hSummary
  | ok placed =>
      rw [hAggregated] at hSummary
      refine ⟨placed, ?_, Except.ok.inj hSummary, ?_⟩
      · rw [run_joined windows host store samples hStarts, join_eq_ok_iff.mpr hResults,
          Except.bind, hAggregated]
        rfl
      · have hLength := congrArg List.length hResults
        rw [List.length_map, length_turns, List.length_map, hThreads] at hLength
        rw [hLength, Summary.threads_of_aggregate hAggregated]

variable (windows host config store samples partitioning state)

/-- A run that comes to a summary without pinning comes to one with pinning exactly if the number of
every worker's CPU is a word, whatever the host makes of those numbers. The summaries then differ in
the CPUs alone, and there is one result for each worker. -/
theorem pinned_ok_iff_reaches (summary : Summary)
    (hOk : (Id.run (run (.noted windows) host (config.pinning false) store samples partitioning
      state) : RunOutcome σ).result = .ok summary) :
    let pinned : RunOutcome σ := Id.run
      (run (.noted windows) host (config.pinning true) store samples partitioning state)
    ((∃ placed, pinned.result = .ok placed) ↔
        ∀ worker < config.threads,
          config.layout.offset + worker % config.layout.physicalCpus host ≤ wordMax) ∧
      ∀ placed, pinned.result = .ok placed →
        placed.unplaced = summary ∧ placed.threads = config.threads := by
  intro pinned
  have hReaches (hPlaced : ∃ placed, pinned.result = .ok placed) :
      ∀ worker < config.threads, config.layout.Reaches host worker := by
    obtain ⟨placed, hPlaced⟩ := hPlaced
    obtain ⟨assignments, results, hPrepared, hResults, _⟩ :=
      exists_of_run_eq_ok windows host _ store samples hPlaced
    have hThreads : assignments.length = config.threads :=
      Partitioning.length_assign (prepare_ok hPrepared).1
    intro worker hLess
    have hPlace := reaches_of_turns windows host config store samples hResults worker
      (by rwa [hThreads])
    rwa [Nat.zero_add] at hPlace
  refine ⟨⟨hReaches, fun hWords => ?_⟩, fun placed hPlaced => ?_⟩
  · obtain ⟨placed, hPlaced, _⟩ := exists_placed hOk hWords
    exact ⟨placed, hPlaced⟩
  · obtain ⟨found, hFound, hSame⟩ := exists_placed hOk (hReaches ⟨placed, hPlaced⟩)
    cases hFound.symm.trans hPlaced
    exact hSame

/-- Three workers on two CPUs, the last of which has the largest number that there is. No CPU can be
had, and the run does not mind. -/
theorem pinned_ok_iff_reaches_last :
    let config : RunConfig :=
      { threads := 3, layout := { offset := wordMax - 1, smtRatio := 1, logicalCpus := some 2 } }
    let workload : Workload := [[⟨.get, 0⟩], [⟨.put, 0⟩], [⟨.get, 0⟩]]
    let outcome (pin : Bool) : RunOutcome ScriptPosition := Id.run
      (run (.noted fun _ => {}) {} (config.pinning pin) (Script.store {}) #[⟨[1], [10]⟩]
        (.shared workload) {})
    ∃ summary placed, (outcome false).result = .ok summary ∧ (outcome true).result = .ok placed ∧
      placed.unplaced = summary ∧ placed.threads = 3 := by
  intro config workload outcome
  have hRan : (outcome false).result.map Summary.threads = .ok 3 := by
    simp only [outcome, config, workload]
    cbv
  cases hOk : (outcome false).result with
  | error failure =>
      rw [hOk] at hRan
      cases hRan
  | ok summary =>
      obtain ⟨hIff, hPlaced⟩ := pinned_ok_iff_reaches (fun _ => {}) {} config (Script.store {})
        #[⟨[1], [10]⟩] (.shared workload) {} summary hOk
      obtain ⟨placed, hResult⟩ := hIff.mpr (by decide)
      exact ⟨summary, placed, rfl, hResult, hPlaced placed hResult⟩

/-- The number of the second worker's CPU is no word, and that alone fails the run. -/
theorem placement_overflows :
    let config : RunConfig :=
      { threads := 2, layout := { offset := wordMax, smtRatio := 1, logicalCpus := some 2 } }
    let workload : Workload := [[⟨.get, 0⟩], [⟨.get, 0⟩]]
    let outcome (pin : Bool) : RunOutcome ScriptPosition := Id.run
      (run (.noted fun _ => {}) {} (config.pinning pin) (Script.store {}) #[⟨[1], [10]⟩]
        (.shared workload) {})
    config.layout.validate = .ok () ∧ (∃ summary, (outcome false).result = .ok summary) ∧
      (outcome true).result = .error (.error (.workerPanicked 1)) := by
  intro config workload outcome
  have hRan : (outcome false).result.map Summary.threads = .ok 2 := by
    simp only [outcome, config, workload]
    cbv
  have hLost : (outcome true).result = .error (.error (.workerPanicked 1)) := by
    simp only [outcome, config, workload]
    cbv
  refine ⟨rfl, ?_, hLost⟩
  cases hOk : (outcome false).result with
  | error failure =>
      rw [hOk] at hRan
      cases hRan
  | ok summary => exact ⟨summary, rfl⟩

end Run

end StoreBench
