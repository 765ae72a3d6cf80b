import StoreBench.Replay
import StoreBench.Run.Partition
import StoreBench.Run.Placement
import StoreBench.Run.Summary

/-! A run: transactions spread over workers, replayed against one store, and summed up. Everything
that can be wrong with a run is found before the first store call. Workers take their turns on the
store one after the other. A worker that meets a fault is lost; the others finish first. -/
namespace StoreBench

structure RunConfig where
  threads : Nat := 1
  /-- Further attempts at a transaction before it is canceled. -/
  retries : Nat := 0
  layout : CpuLayout := {}
deriving DecidableEq, Repr

def RunConfig.validate (config : RunConfig) : Except ConfigError Unit :=
  if config.threads = 0 then .error .zeroThreads else config.layout.validate

/-- What is left of a worker: its result or its fault, and where it was placed. -/
structure WorkerOutcome where
  result : Except Fault WorkerResult
  warning : Option PinWarning := none

/-- Whether the worker met a fault. -/
def WorkerOutcome.isLost (outcome : WorkerOutcome) : Bool := !outcome.result.isOk

/-- The end of a run: its summary, the warnings in worker order, and the store as it was left. -/
structure RunOutcome (σ : Type) where
  result : Except (Failure RunError) Summary
  warnings : List PinWarning
  state : σ

namespace Run

variable {σ τ : Type} {m : Type → Type} [Monad m]

/-- The assignments of a run that may start. -/
def prepare (config : RunConfig) (samples : SampleSet) (partitioning : Partitioning) :
    Except (Failure ConfigError) (List (List Transaction)) := do
  Failure.ofError config.validate
  let assignments ← partitioning.assign config.threads
  Failure.ofError (checkIndices samples.size assignments)
  return assignments

/-- One worker's turn: it finds its place, and then replays under the stopwatch. -/
def work (watch : Stopwatch m) (host : Host) (config : RunConfig) (store : Store σ τ)
    (samples : SampleSet) (worker : Nat) (transactions : List Transaction) (state : σ) :
    m (WorkerOutcome × σ) := do
  match config.layout.place host worker with
  | .error fault => return (⟨.error fault, none⟩, state)
  | .ok placement =>
    let ((replayed, state), window) ← watch.time worker fun _ =>
      (store.replay samples transactions config.retries {}).on state
    let result := replayed.map fun tally =>
      { worker, cpu := placement.cpu, counters := tally.counters, window : WorkerResult }
    return (⟨result, placement.warning⟩, state)

/-- All workers, from the lowest number on. -/
def workAll (watch : Stopwatch m) (host : Host) (config : RunConfig) (store : Store σ τ)
    (samples : SampleSet) (assignments : List (List Transaction)) (state : σ) :
    m (List WorkerOutcome × σ) := do
  let (outcomes, state) ← assignments.zipIdx.foldlM (fun (outcomes, state) (txs, worker) => do
    let (outcome, state) ← work watch host config store samples worker txs state
    return (outcome :: outcomes, state)) ([], state)
  return (outcomes.reverse, state)

/-- Joins threads, the first of which has number `worker`, until one of them was lost. What comes
after it is left over. -/
def joinFrom (worker : Nat) :
    List WorkerOutcome → Except RunError (List WorkerResult) × List WorkerOutcome
  | [] => (.ok [], [])
  | outcome :: rest =>
    match outcome.result with
    | .error _ => (.error (.workerPanicked worker), rest)
    | .ok result =>
      let (results, unjoined) := joinFrom (worker + 1) rest
      (results.map (result :: ·), unjoined)

/-- What the threads of a scope are joined to, in the order of their numbers. No scope ends well
after the loss of a thread that was not joined. -/
def join (outcomes : List WorkerOutcome) : Except (Failure RunError) (List WorkerResult) :=
  let (results, unjoined) := joinFrom 0 outcomes
  if unjoined.any WorkerOutcome.isLost then .error (.fault .workersLost)
  else Failure.ofError results

/-- Runs a workload or a pool on a store. -/
def run (watch : Stopwatch m) (host : Host) (config : RunConfig) (store : Store σ τ)
    (samples : SampleSet) (partitioning : Partitioning) (state : σ) : m (RunOutcome σ) := do
  match prepare config samples partitioning with
  | .error (.error e) => return ⟨.error (.error (.config e)), [], state⟩
  | .error (.fault fault) => return ⟨.error (.fault fault), [], state⟩
  | .ok assignments =>
    let (outcomes, state) ← workAll watch host config store samples assignments state
    let result := do
      let results ← join outcomes
      match Summary.aggregate results with
      | .ok summary => .ok summary
      | .error fault => .error (.fault fault)
    return ⟨result, outcomes.filterMap (·.warning), state⟩

end Run

end StoreBench
