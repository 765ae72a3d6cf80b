import StoreBench.Proofs.Command.Completion
import StoreBench.Proofs.Run.Acceptance

/-! Runs as commands. The stopwatch of the machine tells windows that were noted beforehand, so a
run on it is the run with those windows; and the store that a command fills serves its run. -/
namespace StoreBench

namespace Run

variable {σ τ : Type} (host : Host) (config : RunConfig) (store : Store σ τ) (samples : SampleSet)
  (world : World)

theorem work_timed (worker : Nat) (transactions : List Transaction) (state : σ) :
    (work Machine.stopwatch host config store samples worker transactions state :
        StateM World _).run world =
      (Id.run (work (.noted world.windows) host config store samples worker transactions state),
        world) := by
  rw [work, work]
  cases config.layout.place host worker with
  | error fault => rfl
  | ok placement => rfl

/-- Steps that leave the machine alone do so when taken one after the other. -/
theorem foldlM_timed {α β : Type} {timed : β → α → StateM World β} {noted : β → α → Id β}
    (h : ∀ state item, (timed state item).run world = (Id.run (noted state item), world))
    (items : List α) (state : β) :
    (items.foldlM timed state).run world = (Id.run (items.foldlM noted state), world) := by
  induction items generalizing state with
  | nil => rfl
  | cons item rest ih =>
      rw [List.foldlM_cons, List.foldlM_cons, StateT.run_bind, h]
      exact ih _

theorem workAll_timed (assignments : List (List Transaction)) (state : σ) :
    (workAll Machine.stopwatch host config store samples assignments state : StateM World _).run
        world =
      (Id.run (workAll (.noted world.windows) host config store samples assignments state),
        world) := by
  rw [workAll, workAll, StateT.run_bind, foldlM_timed world]
  · rfl
  · rintro ⟨outcomes, state⟩ ⟨transactions, worker⟩
    rw [StateT.run_bind, work_timed]
    rfl

/-- The machine times a run by the windows it was given, and is not changed by it. -/
theorem run_timed (partitioning : Partitioning) (state : σ) :
    (run Machine.stopwatch host config store samples partitioning state : StateM World _).run
        world =
      (Id.run (run (.noted world.windows) host config store samples partitioning state),
        world) := by
  rw [run, run]
  split
  · rfl
  · rfl
  · rw [StateT.run_bind, workAll_timed]
    rfl

theorem valid_of_prepare {config : RunConfig} {samples : SampleSet} {partitioning : Partitioning}
    {assignments : List (List Transaction)}
    (h : prepare config samples partitioning = .ok assignments) : config.validate = .ok () := by
  obtain ⟨_, hValid, _⟩ := exists_of_bind_eq_ok h
  exact Failure.ofError_eq_ok hValid

end Run

namespace Completes

theorem populatedStore (samples : SampleSet) (world : World) :
    ∃ store, Completes (populatedStore samples) world store world ∧ store.Serves samples := by
  obtain ⟨hOk, hServes, _⟩ := VersionedStore.populate_serves .empty samples
  refine ⟨(VersionedStore.populate {} samples).2, ?_, hServes⟩
  have hAnswer : VersionedStore.populate {} samples =
      (.ok, (VersionedStore.populate {} samples).2) := Prod.ext hOk rfl
  rw [StoreBench.populatedStore, hAnswer]
  exact pure_iff.mpr ⟨rfl, rfl⟩

variable {request : RunRequest} {samples : SampleSet} {partitioning : Partitioning}
  {assignments : List (List Transaction)} {world : World}

/-- A run on what was loaded can be reported, if its transactions can be counted. All of them are
committed at the first attempt, as no worker is in another one's way. -/
theorem report (hSamples : Completes (SampleSet.load request.data) world samples world)
    (hPartitioning : Completes request.partitioning world partitioning world)
    (hPin : request.config.layout.pin = false)
    (hPrepared : Run.prepare request.config samples partitioning = .ok assignments)
    (hWords : (assignments.map List.length).sum ≤ wordMax) :
    ∃ report after, Completes request.report world report after ∧
      report.totals = .perfect (assignments.map List.length).sum := by
  obtain ⟨store, hStore, hServes⟩ := populatedStore samples world
  obtain ⟨summary, hSummary, hTotals⟩ :=
    hServes.run hPin hPrepared hWords world.windows world.host
  have hSettled : summary.totals.committed + summary.totals.canceledTxs =
      summary.totals.assigned := by
    rw [hTotals]
    rfl
  obtain ⟨report, hReport, hSame⟩ := Report.exists_ofSummary hSettled request.unit
  let outcome : RunOutcome VersionedStore := Id.run (Run.run (.noted world.windows) world.host
    request.config VersionedStore.calls samples partitioning store)
  let after : World :=
    { world with log := (outcome.warnings.map PinWarning.message).reverse ++ world.log }
  have hHost : Completes (ExceptT.lift Machine.host : CommandT (StateM World) Host) world world.host
      world := lift_iff.mpr rfl
  have hRun : Completes (ExceptT.lift (Run.run Machine.stopwatch world.host request.config
      VersionedStore.calls samples partitioning store) : CommandT (StateM World) _) world outcome
      world := lift_iff.mpr (Run.run_timed ..)
  refine ⟨report, after, ?_, hSame.trans hTotals⟩
  rw [RunRequest.report]
  apply bind (check_iff.mpr ⟨Run.valid_of_prepare hPrepared, rfl⟩)
  apply bind (stage_iff.mpr hSamples)
  apply bind hStore
  apply bind hPartitioning
  apply bind hHost
  apply bind hRun
  apply bind (warned outcome.warnings PinWarning.message world)
  apply bind (failure_iff.mpr ⟨hSummary, rfl⟩)
  exact sound_iff.mpr ⟨hReport, rfl⟩

end Completes

end StoreBench
