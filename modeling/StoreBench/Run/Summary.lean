import StoreBench.Counters
import StoreBench.Run.Clock

/-! The results of all workers, reduced to those of the run. -/
namespace StoreBench

/-- What one worker observed. -/
structure WorkerResult where
  worker : Nat
  cpu : Option Nat := none
  counters : Counters := {}
  window : Window := {}
deriving DecidableEq, Repr

structure Summary where
  /-- In the order of their numbers. -/
  workers : List WorkerResult
  totals : Counters
  /-- From the earliest start to the latest end. -/
  duration : Duration
deriving DecidableEq, Repr

namespace Summary

/-- From the earliest start to the latest end of these results. -/
def span (workers : List WorkerResult) : Duration :=
  match (workers.map (·.window.start)).min?, (workers.map (·.window.finish)).max? with
  | some start, some finish => Duration.between start finish
  | _, _ => 0

def aggregate (results : List WorkerResult) : Except Fault Summary := do
  let workers := results.mergeSort fun a b => a.worker ≤ b.worker
  let totals ← Counters.sum (workers.map WorkerResult.counters)
  return { workers, totals, duration := span workers }

def threads (summary : Summary) : Nat := summary.workers.length

/-- Transactions that were not canceled. -/
def completed (summary : Summary) : Except Fault Nat :=
  subWords summary.totals.assigned summary.totals.canceledTxs

/-- Completed transactions in one unit of time. Zero for an empty window. -/
def throughput (summary : Summary) (unit : TimeUnit) : Except Fault Binary64 :=
  let elapsed := unit.convert summary.duration
  if elapsed.isZero then .ok (.finite false 0)
  else do return (Binary64.ofNat (← summary.completed)).div elapsed

end Summary

end StoreBench
