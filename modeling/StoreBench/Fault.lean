import StoreBench.Word

/-! Faults. A fault is not an error value: it stops the worker, or the whole computation, that
runs into it, and nothing is known about what that computation would have answered. -/
namespace StoreBench

inductive Fault where
  /-- A sum, or a length of time, beyond its range. -/
  | overflow
  /-- A difference below zero. -/
  | underflow
  | divisionByZero
  /-- A position outside the sample data. -/
  | outOfRange
  /-- Room asked for that no memory has. -/
  | capacity
  /-- A store call that did not return. -/
  | storeCall
  /-- Several workers of one run were lost. -/
  | workersLost
deriving DecidableEq, Repr

/-- How a computation ends without a result: with an error of its own kind, or in a fault. -/
inductive Failure (ε : Type) where
  | error (error : ε)
  | fault (fault : Fault)
deriving DecidableEq, Repr

/-- A sum of two words that has to be a word again. -/
def addWords (a b : Nat) : Except Fault Nat :=
  if a + b ≤ wordMax then .ok (a + b) else .error .overflow

/-- A difference of two words, which may not go below zero. -/
def subWords (a b : Nat) : Except Fault Nat :=
  if b ≤ a then .ok (a - b) else .error .underflow

/-- The largest size of a list in memory, in bytes. -/
def memoryMax : Nat := 9223372036854775807

/-- Asks for room for `count` entries of `width` bytes each. Lists whose length is known beforehand
get their room before the first entry is made. -/
def reserve (count width : Nat) : Except Fault Unit :=
  if count * width ≤ memoryMax then .ok () else .error .capacity

namespace Failure

variable {ε ρ α : Type}

/-- The same failure, with its error wrapped. -/
def map (wrap : ε → ρ) : Failure ε → Failure ρ
  | .error own => .error (wrap own)
  | .fault met => .fault met

/-- A computation that has no errors of its own. -/
def ofFault (result : Except Fault α) : Except (Failure ε) α := result.mapError .fault

/-- A computation that meets no faults. -/
def ofError (result : Except ε α) : Except (Failure ε) α := result.mapError .error

end Failure

end StoreBench
