import StoreBench.Bytes
import StoreBench.Fault

/-! What a benchmark asks of a transactional key-value store. A store is a record of calls on a
state; every call may change the state, and may fail to return. Conflicts and misses are answers,
not failures. -/
namespace StoreBench

/-- The outcome of a store call. -/
inductive Status where
  | ok
  | invalidTx
  | rwConflict
  | wwConflict
  | valueNotFound
deriving DecidableEq, Repr

namespace Status

def display : Status → String
  | .ok => "OK"
  | .invalidTx => "INVALID_TX"
  | .rwConflict => "RW_CONFLICT"
  | .wwConflict => "WW_CONFLICT"
  | .valueNotFound => "VALUE_NOT_FOUND"

def isOk (status : Status) : Bool := status == .ok

end Status

/-- A computation on a store with state `σ`. A fault leaves the state that was reached. -/
abbrev Effect (σ : Type) := ExceptT Fault (StateM σ)

namespace Effect

variable {σ : Type} {α : Type}

/-- Runs the computation on a state. -/
def on (effect : Effect σ α) (state : σ) : Except Fault α × σ := effect.run.run state

/-- A computation that always returns. -/
def ofStep (step : σ → α × σ) : Effect σ α := fun state =>
  let (result, state) := step state
  (.ok result, state)

end Effect

/-- A store with state `σ` whose open transactions are described by a handle of type `τ`. A call
inside a transaction gives the handle as it is afterwards; `commit` uses it up. -/
structure Store (σ τ : Type) where
  start : Effect σ τ
  read : τ → Bytes → Effect σ (τ × Option Bytes × Status)
  write : τ → Bytes → Bytes → Effect σ (τ × Status)
  drop : τ → Bytes → Effect σ (τ × Status)
  commit : τ → Effect σ Status
  /-- Whether the store already knows that the transaction cannot commit. -/
  doomed : τ → Effect σ Bool

end StoreBench
