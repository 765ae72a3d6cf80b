import StoreBench.Fault

/-! Tallies of what happened, of one worker or of a whole run. Every tally is a 64-bit word, and a
sum that one of them cannot hold is a fault. -/
namespace StoreBench

structure Counters where
  /-- Transactions handed to the worker. -/
  assigned : Nat := 0
  /-- Begun transactions, repeated ones included. -/
  attempts : Nat := 0
  committed : Nat := 0
  failures : Nat := 0
  rwConflicts : Nat := 0
  wwConflicts : Nat := 0
  readSnapshotMisses : Nat := 0
  writeSnapshotMisses : Nat := 0
  invalidTxs : Nat := 0
  canceledTxs : Nat := 0
deriving DecidableEq, Repr

namespace Counters

/-- The tallies by the names that documents give them. -/
def named (c : Counters) : List (String × Nat) :=
  [("assigned", c.assigned),
   ("attempts", c.attempts),
   ("committed", c.committed),
   ("failures", c.failures),
   ("rw_conflicts", c.rwConflicts),
   ("ww_conflicts", c.wwConflicts),
   ("read_snapshot_misses", c.readSnapshotMisses),
   ("write_snapshot_misses", c.writeSnapshotMisses),
   ("invalid_txs", c.invalidTxs),
   ("canceled_txs", c.canceledTxs)]

/-- The sum of every tally. -/
def plus (a b : Counters) : Counters where
  assigned := a.assigned + b.assigned
  attempts := a.attempts + b.attempts
  committed := a.committed + b.committed
  failures := a.failures + b.failures
  rwConflicts := a.rwConflicts + b.rwConflicts
  wwConflicts := a.wwConflicts + b.wwConflicts
  readSnapshotMisses := a.readSnapshotMisses + b.readSnapshotMisses
  writeSnapshotMisses := a.writeSnapshotMisses + b.writeSnapshotMisses
  invalidTxs := a.invalidTxs + b.invalidTxs
  canceledTxs := a.canceledTxs + b.canceledTxs

instance : Add Counters := ⟨plus⟩

/-- Whether every tally is a word. -/
def fits (c : Counters) : Bool := c.named.all fun entry => entry.2 ≤ wordMax

/-- The sum, if every tally of it is a word. -/
def add (a b : Counters) : Except Fault Counters :=
  let sum := a + b
  if sum.fits then .ok sum else .error .overflow

/-- The sum of a list, from the left. -/
def sum (list : List Counters) : Except Fault Counters := list.foldlM add {}

end Counters

end StoreBench
