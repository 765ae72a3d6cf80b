/-! Why a run is refused before any worker starts, and how a started one can be lost. -/
namespace StoreBench

inductive ConfigError where
  | zeroThreads
  | tooManyThreads (threads transactions : Nat)
  | poolTooSmall (threads workloads : Nat)
  | dataIndexOutOfRange (worker transaction index samples : Nat)
  | invalidSmtRatio
  | invalidTimeUnit (spelling : String)
  | emptySampleSet
deriving DecidableEq, Repr

def ConfigError.message : ConfigError → String
  | .zeroThreads => "thread count must be at least 1"
  | .tooManyThreads threads transactions =>
    s!"{threads} threads requested for only {transactions} transactions"
  | .poolTooSmall threads workloads =>
    s!"{threads} threads requested but the pool holds {workloads} workloads"
  | .dataIndexOutOfRange worker transaction index samples =>
    s!"worker {worker}, transaction {transaction}: data index {index} out of range for " ++
      s!"{samples} samples"
  | .invalidSmtRatio => "smt ratio must be at least 1"
  | .invalidTimeUnit spelling =>
    s!"unknown time unit '{spelling}', expected one of s, ms, us, ns"
  | .emptySampleSet => "sample set is empty"

inductive RunError where
  | config (error : ConfigError)
  /-- The one worker that was lost. -/
  | workerPanicked (worker : Nat)
deriving DecidableEq, Repr

def RunError.message : RunError → String
  | .config error => s!"Configuration error: {error.message}"
  | .workerPanicked worker => s!"worker {worker} panicked"

end StoreBench
