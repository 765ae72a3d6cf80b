import StoreBench.Duration

/-! Measuring time. What a benchmark computes and how long that takes are kept apart: a stopwatch
runs a computation and tells its window, and everything else is written for any stopwatch. -/
namespace StoreBench

/-- When something started and when it was over. -/
structure Window where
  start : Instant := 0
  finish : Instant := 0
deriving DecidableEq, Repr

def Window.elapsed (w : Window) : Duration := Duration.between w.start w.finish

/-- Runs the computation of a numbered step and measures it. -/
structure Stopwatch (m : Type → Type) where
  time : {α : Type} → (step : Nat) → (Unit → α) → m (α × Window)

namespace Stopwatch

/-- The stopwatch that tells windows noted beforehand. -/
def noted (windows : Nat → Window) : Stopwatch Id where
  time step compute := (compute (), windows step)

end Stopwatch

end StoreBench
