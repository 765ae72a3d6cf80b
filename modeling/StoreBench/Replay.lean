import StoreBench.Counters
import StoreBench.Sample.Basic
import StoreBench.Store.Basic
import StoreBench.Workload.Basic

/-! Replaying transactions against a store. A transaction that fails is run again from its start,
as often as the retry budget allows, and is canceled after that; replay then moves on. Replay only
asks the store and counts what it answers, so it works for every store. -/
namespace StoreBench

/-- What one attempt at a transaction came to. -/
structure Attempt where
  readMisses : Nat := 0
  writeMisses : Nat := 0
  /-- The answer to the commit. A doomed transaction is given up without one. -/
  outcome : Option Status := none
deriving DecidableEq, Repr

namespace Attempt

def succeeded (attempt : Attempt) : Bool := attempt.outcome == some .ok

/-- The tallies of an attempt, the verdict on its transaction left out. -/
def counters (attempt : Attempt) : Counters where
  attempts := 1
  committed := if attempt.succeeded then 1 else 0
  failures := if attempt.succeeded then 0 else 1
  rwConflicts := if attempt.outcome = some .rwConflict then 1 else 0
  wwConflicts := if attempt.outcome = some .wwConflict then 1 else 0
  readSnapshotMisses := attempt.readMisses
  writeSnapshotMisses := attempt.writeMisses
  invalidTxs := if attempt.outcome = some .invalidTx then 1 else 0

end Attempt

/-- A transaction, by its place in the list replayed, that is about to be run again. -/
structure RetryNote where
  place : Nat
  count : Nat
  budget : Nat
deriving DecidableEq, Repr

def RetryNote.message (note : RetryNote) : String :=
  s!"retrying tx {note.place} ({note.count}/{note.budget})"

/-- The tallies so far, and the notes, newest first. -/
structure Tally where
  counters : Counters := {}
  notes : List RetryNote := []
deriving DecidableEq, Repr

namespace Tally

def add {σ : Type} (tally : Tally) (more : Counters) : Effect σ Tally :=
  match tally.counters.add more with
  | .ok counters => pure { tally with counters }
  | .error fault => throw fault

def note (tally : Tally) (entry : RetryNote) : Tally :=
  { tally with notes := entry :: tally.notes }

end Tally

namespace Store

variable {σ τ : Type}

/-- Runs one command of an attempt and counts a miss. -/
def command (store : Store σ τ) (samples : SampleSet) (progress : τ × Attempt) (cmd : Command) :
    Effect σ (τ × Attempt) := do
  let (tx, attempt) := progress
  let some pair := samples[cmd.index]? | throw .outOfRange
  match cmd.operation with
  | .get =>
    let (tx, _, status) ← store.read tx pair.key
    let miss := if status = .valueNotFound then 1 else 0
    return (tx, { attempt with readMisses := attempt.readMisses + miss })
  | .put =>
    let (tx, status) ← store.write tx pair.key pair.value
    let miss := if status = .valueNotFound then 1 else 0
    return (tx, { attempt with writeMisses := attempt.writeMisses + miss })

/-- One attempt at a transaction: begin, every command in order, and a commit unless the store
already gave the transaction up. -/
def attempt (store : Store σ τ) (samples : SampleSet) (tx : Transaction) : Effect σ Attempt := do
  let handle ← store.start
  let (handle, attempt) ← tx.foldlM (store.command samples) (handle, {})
  if ← store.doomed handle then return attempt
  let status ← store.commit handle
  return { attempt with outcome := some status }

/-- Runs a transaction until it commits or has no retries `left`. -/
def settle (store : Store σ τ) (samples : SampleSet) (budget place : Nat) (tx : Transaction) :
    (left : Nat) → Tally → Effect σ Tally
  | 0, tally => do
    let attempt ← store.attempt samples tx
    let tally ← tally.add attempt.counters
    if attempt.succeeded then return tally
    else tally.add { canceledTxs := 1 }
  | left + 1, tally => do
    let attempt ← store.attempt samples tx
    let tally ← tally.add attempt.counters
    if attempt.succeeded then return tally
    let tally := tally.note { place, count := budget - left, budget }
    store.settle samples budget place tx left tally

/-- Replays transactions in order, on top of the tallies of earlier ones. -/
def replay (store : Store σ τ) (samples : SampleSet) (transactions : List Transaction)
    (retries : Nat) (tally : Tally) : Effect σ Tally := do
  let tally ← tally.add { assigned := transactions.length }
  transactions.zipIdx.foldlM
    (fun tally (tx, place) => store.settle samples retries place tx retries tally) tally

end Store

end StoreBench
