/-! Collecting the results of a step that is run a number of times. The steps run in order and an
effect of an early one, a failure included, comes before everything that later ones would do. -/
namespace StoreBench

variable {m : Type → Type} {α : Type} [Monad m]

/-- Runs `step` at `place`, `place + 1` and so on, behind the results `done`, newest first. -/
def collectFrom (step : Nat → m α) (place : Nat) (done : List α) : (count : Nat) → m (List α)
  | 0 => pure done.reverse
  | count + 1 => do
    let result ← step place
    collectFrom step (place + 1) (result :: done) count

/-- The results of `step` at the places below `count`. -/
def collect (step : Nat → m α) (count : Nat) : m (List α) := collectFrom step 0 [] count

theorem collectFrom_done [LawfulMonad m] (step : Nat → m α) (place : Nat) (done : List α)
    (count : Nat) :
    collectFrom step place done count =
      (do return done.reverse ++ (← collectFrom step place [] count)) := by
  induction count generalizing place done with
  | zero => simp [collectFrom]
  | succ count ih =>
    simp only [collectFrom, bind_assoc]
    congr 1
    funext result
    rw [ih, ih (place + 1) [result]]
    simp

theorem collectFrom_shift [LawfulMonad m] (step : Nat → m α) (place : Nat) (done : List α)
    (count : Nat) :
    collectFrom step place done count = collectFrom (fun i => step (place + i)) 0 done count := by
  have general (offset : Nat) : collectFrom step (place + offset) done count =
      collectFrom (fun i => step (place + i)) offset done count := by
    induction count generalizing done offset with
    | zero => rfl
    | succ count ih =>
      simp only [collectFrom]
      congr 1
      funext result
      simpa [Nat.add_assoc] using ih (result :: done) (offset + 1)
  simpa using general 0

/-- A longer run is a shorter one, continued. -/
theorem collect_add [LawfulMonad m] (step : Nat → m α) (first second : Nat) :
    collect step (first + second) =
      (do
        let before ← collect step first
        let after ← collect (fun i => step (first + i)) second
        return before ++ after) := by
  have general (place : Nat) (done : List α) :
      collectFrom step place done (first + second) =
        (do
          let before ← collectFrom step place done first
          let after ← collectFrom step (place + first) [] second
          return before ++ after) := by
    induction first generalizing place done with
    | zero =>
      simp only [Nat.zero_add, collectFrom, pure_bind, Nat.add_zero]
      exact collectFrom_done step place done second
    | succ first ih =>
      rw [Nat.succ_add]
      simp only [collectFrom, bind_assoc]
      congr 1
      funext result
      rw [ih]
      simp [Nat.add_comm, Nat.add_left_comm]
  simp only [collect]
  rw [general]
  congr 1
  funext before
  rw [collectFrom_shift step (0 + first)]
  simp

/-- The last step comes behind all others. -/
theorem collect_succ [LawfulMonad m] (step : Nat → m α) (count : Nat) :
    collect step (count + 1) =
      (do
        let before ← collect step count
        let last ← step count
        return before ++ [last]) := by
  rw [collect_add step count 1]
  simp [collect, collectFrom]

theorem collect_eq_mapM [LawfulMonad m] (step : Nat → m α) (count : Nat) :
    collect step count = (List.range count).mapM step := by
  induction count with
  | zero => rfl
  | succ count ih => simp [collect_succ, ih, List.range_succ]

/-- A run of equal parts, one after the other. -/
theorem collect_mul [LawfulMonad m] (step : Nat → m α) (parts size : Nat) :
    collect step (parts * size) =
      (do
        let runs ← collect (fun part => collect (fun i => step (part * size + i)) size) parts
        return runs.flatten) := by
  induction parts with
  | zero => simp [collect, collectFrom]
  | succ parts ih =>
    rw [Nat.succ_mul, collect_add, ih, collect_succ]
    simp

end StoreBench
