import StoreBench.Proofs.Command.Failing
import StoreBench.Proofs.Command.Running

/-! Commands that only read. Whatever an action reads, logs or measures, it leaves the files alone
if each of its steps does; a run and a baseline are such actions, however they end. -/
namespace StoreBench

namespace Baseline

variable {σ τ : Type} (store : Store σ τ) (operation : Operation) (world : World)

theorem timeCalls_timed (step : Nat) (done : List Duration) (handle : τ) (state : σ)
    (pairs : List Pair) :
    (timeCalls Machine.stopwatch store operation step done handle state pairs :
        StateM World _).run world =
      (Id.run (timeCalls (.noted world.windows) store operation step done handle state pairs),
        world) := by
  induction pairs generalizing step done handle state with
  | nil => rfl
  | cons pair rest ih =>
      rw [timeCalls, timeCalls]
      rcases (call store operation handle pair).on state with ⟨fault | next, reached⟩
      · rfl
      · exact ih (step + 1) ((world.windows step).elapsed :: done) next reached

/-- The machine times a baseline by the windows it was given, and is not changed by it. -/
theorem measure_timed (samples : SampleSet) (repeats : Nat) (stream : WordStream) (state : σ) :
    (measure Machine.stopwatch store samples operation repeats stream state : StateM World _).run
        world =
      (Id.run (measure (.noted world.windows) store samples operation repeats stream state),
        world) := by
  rw [measure, measure]
  split
  · rfl
  split
  · rfl
  rcases store.start.on state with ⟨fault | handle, begun⟩
  · rfl
  dsimp only
  rw [StateT.run_bind, timeCalls_timed]
  rcases timeCalls (.noted world.windows) store operation 0 [] handle begun
    (targets samples repeats stream) with ⟨fault | ⟨last, told⟩, reached⟩
  · rfl
  · dsimp only [bind, Id.run]
    rcases (store.commit last).on reached with ⟨fault | status, final⟩
    · rfl
    · rfl

end Baseline

variable {ε α β : Type}

/-- However the action ends, the files of the machine are what they were. -/
def LeavesFiles (action : ExceptT ε (StateM World) α) : Prop :=
  ∀ before, (action.run.run before).2.files = before.files

namespace LeavesFiles

variable {action : ExceptT ε (StateM World) α}

section Steps

theorem pure (value : α) : LeavesFiles (pure value : ExceptT ε (StateM World) α) := fun _ => rfl

theorem throw (failure : ε) : LeavesFiles (throw failure : ExceptT ε (StateM World) α) :=
  fun _ => rfl

theorem computed (result : Except ε α) :
    LeavesFiles (ExceptT.mk (Pure.pure result) : ExceptT ε (StateM World) α) := fun _ => rfl

theorem lift {step : StateM World α} (h : ∀ before, (step.run before).2.files = before.files) :
    LeavesFiles (ExceptT.lift step : ExceptT ε (StateM World) α) := h

theorem bind {next : α → ExceptT ε (StateM World) β} (h : LeavesFiles action)
    (hNext : ∀ result, LeavesFiles (next result)) : LeavesFiles (action >>= next) := by
  intro before
  rw [run_bind]
  rcases hRan : action.run.run before with ⟨failure | result, middle⟩
  · have hFirst := h before
    rw [hRan] at hFirst
    exact hFirst
  · have hFirst := h before
    rw [hRan] at hFirst
    exact (hNext result middle).trans hFirst

theorem map (h : LeavesFiles action) (change : α → β) : LeavesFiles (change <$> action) := by
  rw [map_eq_pure_bind]
  exact h.bind fun result => .pure (change result)

theorem stage (h : LeavesFiles action) (wrap : ε → CommandError) :
    LeavesFiles (CommandT.stage wrap action) := h

theorem check (wrap : ε → CommandError) (result : Except ε α) :
    LeavesFiles (CommandT.check wrap result : CommandT (StateM World) α) := fun _ => rfl

theorem failure (wrap : ε → CommandError) (result : Except (Failure ε) α) :
    LeavesFiles (CommandT.failure wrap result : CommandT (StateM World) α) := fun _ => rfl

theorem sound (result : Except Fault α) :
    LeavesFiles (CommandT.sound result : CommandT (StateM World) α) := fun _ => rfl

/-- An action that always completes is judged by what it leaves. -/
theorem of_completes (h : ∀ before, ∃ result after, Completes action before result after ∧
    after.files = before.files) : LeavesFiles action := by
  intro before
  obtain ⟨result, after, hCompletes, hFiles⟩ := h before
  rw [Completes] at hCompletes
  rw [hCompletes]
  exact hFiles

theorem warned (entries : List β) (wording : β → String) :
    LeavesFiles (forIn entries PUnit.unit fun entry _ => do
      ExceptT.lift (Machine.warn (wording entry))
      Pure.pure (ForInStep.yield PUnit.unit) : ExceptT ε (StateM World) PUnit) :=
  of_completes fun before => ⟨_, _, Completes.warned entries wording before, rfl⟩

theorem streamOr (seed : Option UInt64) :
    LeavesFiles (StoreBench.streamOr seed : CommandT (StateM World) WordStream) := by
  cases seed with
  | some given => exact .pure _
  | none => exact .lift fun _ => rfl

end Steps

section Loading

variable (path : String)

theorem readFile : LeavesFiles (ExceptT.lift (Machine.readFile path) :
    ExceptT ε (StateM World) (Except ReadFault Bytes)) := fun _ => rfl

theorem loadSamples : LeavesFiles (SampleSet.load path : ExceptT SampleError (StateM World) _) := by
  refine (readFile path).bind fun answer => ?_
  split
  · exact .throw _
  · exact .computed _

theorem loadDocument :
    LeavesFiles (StoreBench.loadDocument path : ExceptT ParseError (StateM World) _) := by
  refine (readFile path).bind fun answer => ?_
  split
  · exact .throw _
  · exact .throw _
  · exact .pure _

theorem loadTable : LeavesFiles (ProfileTable.load path : ExceptT ParseError (StateM World) _) := by
  refine (loadDocument path).bind fun content => ?_
  rcases ProfileTable.parse content with ⟨table, ignored⟩
  exact (warned ignored UnknownOperation.message).bind fun _ => .computed table

theorem loadWorkload : LeavesFiles (Workload.load path : ExceptT ParseError (StateM World) _) :=
  (loadDocument path).bind fun _ => .computed _

theorem loadPool : LeavesFiles (Pool.load path : ExceptT ParseError (StateM World) _) :=
  (loadDocument path).bind fun _ => .computed _

end Loading

section Performing

theorem populatedStore (samples : SampleSet) :
    LeavesFiles (StoreBench.populatedStore samples : CommandT (StateM World) _) := by
  rw [StoreBench.populatedStore]
  split
  · exact .pure _
  · exact .throw _

theorem partitioning (request : RunRequest) :
    LeavesFiles (request.partitioning : CommandT (StateM World) _) := by
  rw [RunRequest.partitioning]
  split
  · exact ((loadPool request.workload).stage .parse).map _
  · exact ((loadWorkload request.workload).stage .parse).map _

theorem report (request : RunRequest) :
    LeavesFiles (request.report : CommandT (StateM World) Report) := by
  refine (check .config request.config.validate).bind fun _ => ?_
  refine ((loadSamples request.data).stage .sample).bind fun samples => ?_
  refine (populatedStore samples).bind fun store => ?_
  refine (partitioning request).bind fun partitioning => ?_
  refine (lift fun _ => rfl).bind fun host => ?_
  refine (lift fun before => ?_).bind fun outcome => ?_
  · rw [Run.run_timed]
  refine (warned outcome.warnings PinWarning.message).bind fun _ => ?_
  exact (failure .run outcome.result).bind fun summary => sound _

theorem run (request : RunRequest) (verbose : Bool) :
    LeavesFiles (request.perform verbose : CommandT (StateM World) String) := by
  refine (report request).bind fun report => ?_
  split
  · exact .pure _
  · exact .pure _

theorem stats (request : BaselineRequest) :
    LeavesFiles (request.stats : CommandT (StateM World) (Option LatencyStats)) := by
  refine ((loadSamples request.data).stage .sample).bind fun samples => ?_
  refine (populatedStore samples).bind fun store => ?_
  refine (streamOr request.seed).bind fun stream => ?_
  refine (lift fun before => ?_).bind fun measured => ?_
  · rw [Baseline.measure_timed]
  exact (failure .config measured.1).bind fun times => sound _

theorem baseline (request : BaselineRequest) :
    LeavesFiles (request.perform : CommandT (StateM World) String) := by
  refine (stats request).bind fun stats => ?_
  split
  · exact .pure _
  · exact .pure _

end Performing

end LeavesFiles

theorem LeavesFiles.of_fails {action : ExceptT ε (StateM World) α} (h : LeavesFiles action)
    {before after : World} {failure : ε} (hFails : Fails action before failure after) :
    after.files = before.files := by
  have hFiles := h before
  rwa [hFails] at hFiles

theorem LeavesFiles.after_completes {action : ExceptT ε (StateM World) α} (h : LeavesFiles action)
    {before after : World} {result : α} (hCompletes : Completes action before result after) :
    after.files = before.files := by
  have hFiles := h before
  rwa [hCompletes] at hFiles

end StoreBench
