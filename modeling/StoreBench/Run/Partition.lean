import StoreBench.Fault
import StoreBench.Run.Error
import StoreBench.Workload.Basic

/-! Spreading transactions over workers. A shared workload is cut into consecutive ranges whose
sizes differ by at most one; a pool gives every worker an entry of its own. -/
namespace StoreBench

/-- The positions from `start` up to, and not including, `stop`. -/
structure Range where
  start : Nat
  stop : Nat
deriving DecidableEq, Repr

namespace Range

/-- Bytes that a range takes in a list. -/
def width : Nat := 16

/-- Ranges of these sizes, one after the other. -/
def consecutive (start : Nat) : List Nat → List Range
  | [] => []
  | size :: more => ⟨start, start + size⟩ :: consecutive (start + size) more

/-- The items at these positions. -/
def slice {α : Type} (range : Range) (items : Array α) : List α :=
  (items.extract range.start range.stop).toList

end Range

/-- The sizes of the shares of `threads` workers. The first ones take what is left over. -/
def shareSizes (len threads : Nat) : List Nat :=
  (List.range threads).map fun i => len / threads + if i < len % threads then 1 else 0

/-- Cuts `len` transactions into one range for each worker. Every worker needs at least one. -/
def partition (len threads : Nat) : Except (Failure ConfigError) (List Range) := do
  if threads = 0 then throw (.error .zeroThreads)
  if len < threads then throw (.error (.tooManyThreads threads len))
  Failure.ofFault (reserve threads Range.width)
  return Range.consecutive 0 (shareSizes len threads)

/-- What the workers of a run replay. -/
inductive Partitioning where
  | shared (workload : Workload)
  | preSplit (pool : Pool)
deriving DecidableEq, Repr

namespace Partitioning

/-- Transactions available to the run as a whole. -/
def transactionCount : Partitioning → Nat
  | .shared workload => workload.length
  | .preSplit pool => pool.flatten.length

/-- The transactions of each worker, in worker order. -/
def assign (partitioning : Partitioning) (threads : Nat) :
    Except (Failure ConfigError) (List (List Transaction)) :=
  match partitioning with
  | .shared workload => do
    let ranges ← partition workload.length threads
    let items := workload.toArray
    return ranges.map (·.slice items)
  | .preSplit pool =>
    if pool.length < threads then .error (.error (.poolTooSmall threads pool.length))
    else .ok (pool.take threads)

end Partitioning

/-- The first command, in the order of workers, transactions and commands, that refers to no pair
of the sample data. -/
def checkIndices (samples : Nat) (assignments : List (List Transaction)) :
    Except ConfigError Unit :=
  let fault := assignments.zipIdx.findSome? fun (transactions, worker) =>
    transactions.zipIdx.findSome? fun (tx, place) =>
      (tx.find? fun cmd => samples ≤ cmd.index).map fun cmd =>
        ConfigError.dataIndexOutOfRange worker place cmd.index samples
  match fault with
  | some error => .error error
  | none => .ok ()

end StoreBench
