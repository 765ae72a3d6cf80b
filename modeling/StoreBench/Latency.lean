import StoreBench.Collect
import StoreBench.Json.Layout
import StoreBench.Random.Draw
import StoreBench.Run.Clock
import StoreBench.Run.Error
import StoreBench.Sample.Basic
import StoreBench.Store.Basic
import StoreBench.Workload.Basic

/-! The latency of single calls: timing them inside one transaction, and reducing the times to
their order statistics and their mean. -/
namespace StoreBench

structure LatencyStats where
  count : Nat
  min : Duration
  max : Duration
  median : Duration
  mean : Duration
deriving DecidableEq, Repr

namespace LatencyStats

/-- The divisor of a mean is a 32-bit word. -/
def divisor (count : Nat) : Nat := count % (halfWordMax + 1)

/-- The middle of sorted samples. Two middle samples are averaged and rounded down. -/
def middle (sorted : List Duration) : Except Fault Duration :=
  let mid := sorted.length / 2
  if sorted.length % 2 = 0 then do
    (← Duration.add (sorted.getD (mid - 1) 0) (sorted.getD mid 0)).share 2
  else .ok (sorted.getD mid 0)

/-- The statistics of some samples; there are none without samples. -/
def ofSamples (samples : List Duration) : Except Fault (Option LatencyStats) :=
  if samples.isEmpty then .ok none
  else do
    let sorted := samples.mergeSort
    let count := sorted.length
    let median ← middle sorted
    let total ← Duration.sum sorted
    let mean ← total.share (divisor count)
    return some { count, min := sorted.getD 0 0, max := sorted.getD (count - 1) 0, median, mean }

def lines (stats : LatencyStats) (unit : TimeUnit) : List String :=
  [s!"count  = {stats.count}",
   s!"min    = {unit.text stats.min} {unit.spelling}",
   s!"max    = {unit.text stats.max} {unit.spelling}",
   s!"median = {unit.text stats.median} {unit.spelling}",
   s!"avg    = {unit.text stats.mean} {unit.spelling}"]

def text (stats : LatencyStats) (unit : TimeUnit) : String :=
  String.join ((stats.lines unit).map (· ++ "\n"))

open Json (Layout.compactObject)

def durationDocument (d : Duration) : Bytes :=
  Layout.compactObject [("secs", Bytes.decimal d.seconds), ("nanos", Bytes.decimal d.nanos)]

def document (stats : LatencyStats) : Bytes :=
  Layout.compactObject
    [("count", Bytes.decimal stats.count),
     ("min", durationDocument stats.min),
     ("max", durationDocument stats.max),
     ("median", durationDocument stats.median),
     ("mean", durationDocument stats.mean)]

end LatencyStats

namespace Baseline

variable {σ τ : Type} {m : Type → Type} [Monad m]

/-- A single call of the chosen kind on a pair. What it answers is not looked at. -/
def call (store : Store σ τ) (operation : Operation) (handle : τ) (pair : Pair) : Effect σ τ :=
  match operation with
  | .get => do return (← store.read handle pair.key).1
  | .put => do return (← store.write handle pair.key pair.value).1

/-- Times one call for each pair, the first of them as step number `step`. -/
def timeCalls (watch : Stopwatch m) (store : Store σ τ) (operation : Operation) (step : Nat)
    (done : List Duration) (handle : τ) (state : σ) :
    List Pair → m (Except Fault (τ × List Duration) × σ)
  | [] => return (.ok (handle, done.reverse), state)
  | pair :: rest => do
    let ((called, state), window) ← watch.time step fun _ =>
      (call store operation handle pair).on state
    match called with
    | .error fault => return (.error fault, state)
    | .ok handle =>
      timeCalls watch store operation (step + 1) (window.elapsed :: done) handle state rest

/-- Bytes that a measured time takes in a list. -/
def timeWidth : Nat := 16

/-- The pairs that the calls are made on, drawn uniformly. -/
def targets (samples : SampleSet) (repeats : Nat) (stream : WordStream) : List Pair :=
  let positions : Draw (List Nat) := collect (fun _ => Draw.position samples.size) repeats
  (positions.run stream).1.filterMap fun i => samples[i]?

/-- Times `repeats` calls inside one transaction, which is committed at the end. -/
def measure (watch : Stopwatch m) (store : Store σ τ) (samples : SampleSet)
    (operation : Operation) (repeats : Nat) (stream : WordStream) (state : σ) :
    m (Except (Failure ConfigError) (List Duration) × σ) := do
  if samples.isEmpty then return (.error (.error .emptySampleSet), state)
  if let .error fault := reserve repeats timeWidth then return (.error (.fault fault), state)
  match store.start.on state with
  | (.error fault, state) => return (.error (.fault fault), state)
  | (.ok handle, state) =>
    match ← timeCalls watch store operation 0 [] handle state (targets samples repeats stream) with
    | (.error fault, state) => return (.error (.fault fault), state)
    | (.ok (handle, times), state) =>
      match (store.commit handle).on state with
      | (.error fault, state) => return (.error (.fault fault), state)
      | (.ok _, state) => return (.ok times, state)

end Baseline

end StoreBench
