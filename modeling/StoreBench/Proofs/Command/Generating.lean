import StoreBench.Proofs.Command.Frame

/-! Commands that make something at random. With a seed they make what the seed makes, and take
nothing from the machine. Without a seed every generator takes two of the machine's streams, one
worker after the other, and none is taken behind the first generator that fails. -/
namespace StoreBench

section Seeded

variable {m : Type → Type} [Monad m] [LawfulMonad m] {ε α β : Type}

namespace CommandT

theorem check_eq_failure (wrap : ε → CommandError) (computed : Except ε α) :
    (check wrap computed : CommandT m α) = failure wrap (Failure.ofError computed) := by
  apply ExceptT.ext
  change Except.mapError _ <$> pure computed = _
  rw [map_pure]
  cases computed <;> rfl

omit [LawfulMonad m] in
theorem sound_eq_failure (wrap : ε → CommandError) (computed : Except Fault α) :
    (sound computed : CommandT m α) = failure wrap (Failure.ofFault computed) := by
  cases computed <;> rfl

/-- Computing first and going on with the result is one computation. -/
theorem failure_bind (wrap : ε → CommandError) (first : Except (Failure ε) α)
    (next : α → Except (Failure ε) β) :
    (failure wrap (first >>= next) : CommandT m β) =
      failure wrap first >>= fun result => failure wrap (next result) := by
  apply ExceptT.ext
  change _ = (pure (first.mapError (Failure.map wrap)) >>= _ : m _)
  rw [pure_bind]
  cases first <;> rfl

theorem failure_map (wrap : ε → CommandError) (computed : Except (Failure ε) α) (change : α → β) :
    (failure wrap (change <$> computed) : CommandT m β) = change <$> failure wrap computed := by
  rw [map_eq_pure_bind, failure_bind, map_eq_pure_bind]
  rfl

theorem collect_failure (wrap : ε → CommandError) (step : Nat → Except (Failure ε) α)
    (count : Nat) :
    collect (fun place => (failure wrap (step place) : CommandT m α)) count =
      failure wrap (collect step count) := by
  induction count with
  | zero => rfl
  | succ count ih =>
      rw [collect_succ, collect_succ, ih, failure_bind]
      refine bind_congr fun earlier => ?_
      rw [failure_bind]
      rfl

end CommandT

variable [Machine m] {seed : UInt64}

/-- On every machine the pairs that are saved are those of the seed. -/
theorem SampleRequest.perform_of_seed {request : SampleRequest} (h : request.seed = some seed) :
    (request.perform : CommandT m Unit) =
      (do
        let samples ← CommandT.failure .sample (request.shape.generate seed)
        CommandT.stage .sample (SampleSet.save request.output samples)) := by
  rw [perform, h, streamOr, pure_bind, SampleShape.generate, CommandT.failure_bind, bind_assoc,
    CommandT.check_eq_failure]
  refine bind_congr fun _ => ?_
  rw [CommandT.sound_eq_failure]

/-- On every machine the workload, or the pool of all workers, is that of the seed. -/
theorem GenerateRequest.generate_of_seed {request : GenerateRequest} (h : request.seed = some seed)
    (table : ProfileTable) (samples : Nat) :
    (request.generate table samples : CommandT m Partitioning) =
      CommandT.failure .generate
        (match request.split with
        | some workers => .preSplit <$> Pool.generate table request.config samples seed workers
        | none => .shared <$> Workload.generate table request.config samples seed) := by
  have hOwn (own : UInt64) : (request.workload table samples (some own) : CommandT m Workload) =
      CommandT.failure .generate (Workload.generate table request.config samples own) := by
    rw [workload, generatorOr, pure_bind]
    rfl
  have hWorker (worker : Nat) : request.workerSeed worker =
      some (deriveSeed seed worker.toUInt64) := by
    rw [workerSeed, h]
    rfl
  rw [generate, h]
  cases request.split with
  | none =>
      dsimp only
      rw [hOwn, CommandT.failure_map]
  | some workers =>
      dsimp only
      simp only [hWorker, hOwn]
      rw [CommandT.failure_map, Pool.generate, CommandT.collect_failure]

end Seeded

namespace World

variable (world : World) (seed : Option UInt64)

/-- The generator that is to be had on this machine. -/
def generator : Generator :=
  match seed with
  | some seed => .ofSeed seed
  | none => { choices := world.entropy world.taken, lengths := world.entropy (world.taken + 1) }

/-- The machine after so many generators. -/
def spend (generators : Nat) : World :=
  match seed with
  | some _ => world
  | none => { world with taken := world.taken + 2 * generators }

theorem files_spend (generators : Nat) : (world.spend seed generators).files = world.files := by
  cases seed <;> rfl

theorem spend_zero : world.spend seed 0 = world := by
  cases seed <;> rfl

/-- What a seed is made of does not matter for what is taken from the machine. -/
theorem spend_map (change : UInt64 → UInt64) (generators : Nat) :
    (world.spend seed generators).spend (seed.map change) 1 =
      world.spend seed (generators + 1) := by
  cases seed <;> rfl

end World

/-- Steps that are computed, each on the machine that the one before has left, are collected as if
there were no machine. -/
theorem run_collect {ε ρ α : Type} {step : Nat → ExceptT ρ (StateM World) α}
    {own : Nat → Except ε α} {wrap : ε → ρ} {reach : Nat → World}
    (h : ∀ place, (step place).run.run (reach place) =
      ((own place).mapError wrap, reach (place + 1))) (count : Nat) :
    ∃ reached, (collect step count).run.run (reach 0) =
        ((collect own count).mapError wrap, reach reached) ∧
      ∀ results, collect own count = .ok results → reached = count := by
  induction count with
  | zero => exact ⟨0, rfl, fun _ _ => rfl⟩
  | succ count ih =>
      obtain ⟨reached, hRan, hAll⟩ := ih
      rw [collect_succ, collect_succ, run_bind, hRan]
      cases hOwn : collect own count with
      | error failure => exact ⟨reached, rfl, fun _ hOk => by cases hOk⟩
      | ok earlier =>
          obtain rfl := hAll earlier hOwn
          refine ⟨reached + 1, ?_, fun _ _ => rfl⟩
          refine (run_bind (step reached) _ (reach reached)).trans ?_
          rw [h]
          cases own reached <;> rfl

/-- The document that is written of what was generated. -/
def Partitioning.print : Partitioning → Bytes
  | .shared workload => workload.print
  | .preSplit pool => pool.print

theorem Partitioning.save_eq {m : Type → Type} [Monad m] [Machine m] (path : String)
    (partitioning : Partitioning) :
    (partitioning.save path : ExceptT ParseError m Unit) =
      (createFile path partitioning.print).adapt .file := by
  cases partitioning <;> rfl

namespace GenerateRequest

/-- The generator of one worker, when those before it have had theirs. -/
def workerGenerator (request : GenerateRequest) (world : World) (worker : Nat) : Generator :=
  (world.spend request.seed worker).generator (request.workerSeed worker)

/-- What is made of a table for so many pairs on this machine, as one workload or as a pool. -/
def generated (request : GenerateRequest) (table : ProfileTable) (samples : Nat) (world : World) :
    Except (Failure GenerateError) Partitioning :=
  match request.split with
  | some workers => .preSplit <$> collect (fun worker =>
      Workload.generateFrom table request.config samples (request.workerGenerator world worker))
      workers
  | none => .shared <$>
      Workload.generateFrom table request.config samples (world.generator request.seed)

variable {request : GenerateRequest} {table : ProfileTable} {samples : Nat} {world : World}

theorem run_workload (request : GenerateRequest) (table : ProfileTable) (samples : Nat)
    (seed : Option UInt64) (world : World) :
    (request.workload table samples seed : CommandT (StateM World) Workload).run.run world =
      ((Workload.generateFrom table request.config samples (world.generator seed)).mapError
        (Failure.map .generate), world.spend seed 1) := by
  cases seed <;> rfl

/-- Generating is a computation on the streams that the machine hands out. -/
theorem run_generate (request : GenerateRequest) (table : ProfileTable) (samples : Nat)
    (world : World) :
    ∃ generators, (request.generate table samples : CommandT (StateM World) _).run.run world =
      ((request.generated table samples world).mapError (Failure.map .generate),
        world.spend request.seed generators) := by
  have hMap {α : Type} {action : CommandT (StateM World) α} {own : Except (Failure GenerateError) α}
      {after : World} (change : α → Partitioning)
      (hRan : action.run.run world = (own.mapError (Failure.map .generate), after)) :
      (change <$> action).run.run world =
        ((change <$> own).mapError (Failure.map .generate), after) := by
    rw [map_eq_pure_bind, run_bind, hRan]
    cases own <;> rfl
  rw [generate, generated]
  cases request.split with
  | none => exact ⟨1, hMap _ (run_workload request table samples request.seed world)⟩
  | some workers =>
      have hWorker (worker : Nat) := run_workload request table samples (request.workerSeed worker)
        (world.spend request.seed worker)
      simp only [workerSeed, World.spend_map] at hWorker
      obtain ⟨reached, hRan, _⟩ := run_collect hWorker workers
      rw [World.spend_zero] at hRan
      exact ⟨reached, hMap _ hRan⟩

/-- Loading profiles takes no stream from the machine. -/
theorem generated_of_loadTable {path : String} {loaded : ProfileTable} {after : World}
    (h : Completes (ProfileTable.load path) world loaded after) :
    request.generated table samples after = request.generated table samples world := by
  obtain ⟨_, _, _, _, rfl⟩ := Completes.loadTable_iff.mp h
  cases hSeed : request.seed <;> simp only [generated, workerGenerator, World.spend,
    World.generator, hSeed]

/-- Both input files are there and well-formed. -/
structure Loads (request : GenerateRequest) (before : World) (samples : SampleSet)
    (table : ProfileTable) : Prop where
  samples : Completes (SampleSet.load request.data) before samples before
  table : ∃ after, Completes (ProfileTable.load request.profile) before table after

/-- Everything that is to be saved is there. -/
def Generates (request : GenerateRequest) (before : World) (partitioning : Partitioning) : Prop :=
  ∃ samples table, request.Loads before samples table ∧ table.validate = .ok () ∧
    request.generated table samples.size before = .ok partitioning

section Preparing

variable {before after : World} {partitioning : Partitioning}

theorem loads_of_files {samples : SampleSet} {data profiles : Bytes}
    {ignored : List UnknownOperation}
    (hRead : before.files.read (.ofText request.data) = .ok data)
    (hParse : SampleSet.parse data = .ok samples)
    (hProfiles : before.files.read (.ofText request.profile) = .ok profiles)
    (hTable : ProfileTable.parse profiles = (.ok table, ignored)) :
    request.Loads before samples table where
  samples := Completes.loadSamples_iff.mpr ⟨⟨data, hRead, hParse⟩, rfl⟩
  table := ⟨_, Completes.loadTable_iff.mpr ⟨profiles, ignored, hProfiles, hTable, rfl⟩⟩

/-- Once everything is loaded and checked, generating decides how the preparations end. -/
theorem run_prepare {samples : SampleSet} (hLoads : request.Loads before samples table)
    (hValid : table.validate = .ok ()) :
    ∃ after, (request.prepare : CommandT (StateM World) _).run.run before =
      ((request.generated table samples.size before).mapError (Failure.map .generate), after) := by
  obtain ⟨hSamples, loaded, hTable⟩ := hLoads
  obtain ⟨generators, hRan⟩ := run_generate request table samples.size loaded
  rw [generated_of_loadTable hTable] at hRan
  refine ⟨loaded.spend request.seed generators, ?_⟩
  rw [prepare, (Completes.stage_iff.mpr hSamples).run_bind]
  refine ((Completes.stage_iff.mpr hTable).run_bind _).trans ?_
  exact ((Completes.check_iff.mpr ⟨hValid, rfl⟩).run_bind _).trans hRan

/-- Preparations that complete have loaded and checked the inputs, and then generated. -/
theorem generates_of_completes (h : Completes request.prepare before partitioning after) :
    request.Generates before partitioning := by
  obtain ⟨samples, _, hSamples, h⟩ := Completes.bind_iff.mp h
  rw [Completes.stage_iff] at hSamples
  obtain ⟨_, rfl⟩ := Completes.loadSamples_iff.mp hSamples
  obtain ⟨table, loaded, hTable, h⟩ := Completes.bind_iff.mp h
  rw [Completes.stage_iff] at hTable
  obtain ⟨_, _, hChecked, h⟩ := Completes.bind_iff.mp h
  obtain ⟨hValid, rfl⟩ := Completes.check_iff.mp hChecked
  obtain ⟨generators, hRan⟩ := run_generate request table samples.size loaded
  have hEnded := congrArg Prod.fst (hRan.symm.trans h)
  rw [generated_of_loadTable hTable] at hEnded
  exact ⟨samples, table, ⟨hSamples, loaded, hTable⟩, hValid, mapError_eq_ok_iff.mp hEnded⟩

theorem Generates.prepared (h : request.Generates before partitioning) :
    ∃ after, Completes request.prepare before partitioning after := by
  obtain ⟨samples, table, hLoads, hValid, hGenerated⟩ := h
  obtain ⟨after, hRan⟩ := run_prepare hLoads hValid
  rw [hGenerated] at hRan
  exact ⟨after, hRan⟩

theorem prepare_leaves (request : GenerateRequest) :
    LeavesFiles (request.prepare : CommandT (StateM World) Partitioning) := by
  refine ((LeavesFiles.loadSamples request.data).stage .sample).bind fun samples => ?_
  refine ((LeavesFiles.loadTable request.profile).stage .parse).bind fun table => ?_
  refine (LeavesFiles.check .profile _).bind fun _ before => ?_
  obtain ⟨generators, hRan⟩ := run_generate request table samples.size before
  rw [hRan]
  exact before.files_spend request.seed generators

/-- A request that has generated something completes, if its output can be written. -/
theorem Generates.completes (h : request.Generates before partitioning) {made files : FileTree}
    (hMade : before.files.makeParents (.ofText request.output) = (.ok (), made))
    (hWritten : made.write (.ofText request.output) partitioning.print = .ok files) :
    ∃ after, Completes request.perform before () after ∧ after.files = files := by
  obtain ⟨middle, hPrepared⟩ := h.prepared
  have hFiles := (prepare_leaves request).after_completes hPrepared
  refine ⟨{ middle with files }, Completes.bind hPrepared ?_, rfl⟩
  rw [Completes.stage_iff, Partitioning.save_eq, Completes.adapt_iff, Completes.createFile_iff,
    hFiles, hMade]
  exact ⟨rfl, files, hWritten, rfl⟩

end Preparing

end GenerateRequest

end StoreBench
