import StoreBench.Proofs.Command.Acceptance
import StoreBench.Proofs.Files.Frame
import StoreBench.Proofs.Sample.Generation

/-! Commands that write. Making sample data and generating write one file, and not before everything
that goes into it is there. So a command that fails earlier has not even made a directory. -/
namespace StoreBench

theorem SampleShape.validate_eq_error_iff {shape : SampleShape} {error : SampleError} :
    shape.validate = .error error ↔ shape.keySize = 0 ∧ error = .invalidKeySize 0 := by
  rw [validate]
  by_cases hNone : shape.keySize = 0
  · simp [hNone, eq_comm]
  · simp [hNone]

namespace SampleRequest

variable {request : SampleRequest} {before after : World} {size : Nat}

/-- Saving has errors of its own. -/
theorem save_not_invalidKeySize {path : String} {samples : SampleSet} :
    ¬Fails (SampleSet.save path samples) before (.invalidKeySize size) after := by
  intro h
  rcases hPrinted : samples.print with ⟨content, printed⟩
  rw [SampleSet.save, hPrinted] at h
  obtain hCreate | ⟨_, middle, _, hPrint⟩ := Fails.bind_iff.mp h
  · obtain ⟨_, _, hWrapped⟩ := Fails.adapt_iff.mp hCreate
    cases hWrapped
  · obtain ⟨rfl, _⟩ := Fails.computed_iff.mp hPrint
    obtain ⟨_, _, _, _, _, _, hError, _⟩ := SampleSet.print_eq_error_iff.mp hPrinted
    cases hError

/-- Keys without letters are refused before anything else is done. -/
theorem fails_invalidKeySize_iff :
    Fails request.perform before (.error (.sample (.invalidKeySize size))) after ↔
      (request.shape.keySize = 0 ∧ size = 0) ∧ before = after := by
  constructor
  · intro h
    obtain hChecked | ⟨_, _, _, h⟩ := Fails.bind_iff.mp h
    · obtain ⟨⟨error, hRefused, hWrapped⟩, hSame⟩ := Fails.check_iff.mp hChecked
      cases hWrapped
      obtain ⟨hNone, hError⟩ := SampleShape.validate_eq_error_iff.mp hRefused
      cases hError
      exact ⟨⟨hNone, rfl⟩, hSame⟩
    obtain hStream | ⟨stream, _, _, h⟩ := Fails.bind_iff.mp h
    · exact absurd hStream Fails.not_streamOr
    obtain hMade | ⟨samples, _, _, hSave⟩ := Fails.bind_iff.mp h
    · obtain ⟨⟨fault, _, hWrapped⟩, _⟩ := Fails.sound_iff.mp hMade
      cases hWrapped
    · obtain ⟨error, hSave, hWrapped⟩ := Fails.stage_iff.mp hSave
      cases hWrapped
      exact absurd hSave save_not_invalidKeySize
  · rintro ⟨⟨hNone, rfl⟩, rfl⟩
    apply Fails.first
    exact Fails.check_iff.mpr ⟨⟨_, SampleShape.validate_eq_error_iff.mpr ⟨hNone, rfl⟩, rfl⟩, rfl⟩

end SampleRequest

/-- Loading the file at the path gives what was generated. -/
def Partitioning.ReadsBack (path : String) (world : World) : Partitioning → Prop
  | .shared workload => Completes (Workload.load path) world workload world
  | .preSplit pool => Completes (Pool.load path) world pool world

namespace GenerateRequest

/-- The ways in which a request fails before its output is touched: at the data, at the profiles,
at a table that is not valid, or in generating, be it the workload or that of some worker. -/
inductive Stops (request : GenerateRequest) (before : World) : Failure CommandError → Prop where
  | samples {error : SampleError} {after : World}
      (h : Fails (SampleSet.load request.data) before error after) :
      Stops request before (.error (.sample error))
  | profiles {samples : SampleSet} {error : ParseError} {after : World}
      (hSamples : Completes (SampleSet.load request.data) before samples before)
      (h : Fails (ProfileTable.load request.profile) before error after) :
      Stops request before (.error (.parse error))
  | invalid {samples : SampleSet} {table : ProfileTable} {error : ProfileError}
      (hLoads : request.Loads before samples table) (h : table.validate = .error error) :
      Stops request before (.error (.profile error))
  | workload {samples : SampleSet} {table : ProfileTable} {failure : Failure GenerateError}
      (hLoads : request.Loads before samples table) (hValid : table.validate = .ok ())
      (hSplit : request.split = none)
      (h : Workload.generateFrom table request.config samples.size
        (before.generator request.seed) = .error failure) :
      Stops request before (failure.map .generate)
  | worker {samples : SampleSet} {table : ProfileTable} {failure : Failure GenerateError}
      {workers worker : Nat} (hLoads : request.Loads before samples table)
      (hValid : table.validate = .ok ()) (hSplit : request.split = some workers)
      (hWorker : worker < workers)
      (h : Workload.generateFrom table request.config samples.size
        (request.workerGenerator before worker) = .error failure)
      (hEarlier : ∀ earlier < worker, ∃ workload, Workload.generateFrom table request.config
        samples.size (request.workerGenerator before earlier) = .ok workload) :
      Stops request before (failure.map .generate)

variable {request : GenerateRequest} {before after : World} {partitioning : Partitioning}

/-- Generating fails as the workload does, or as the first worker does whose workload fails. -/
theorem generated_eq_error_iff {table : ProfileTable} {samples : Nat} {world : World}
    {failure : Failure GenerateError} :
    request.generated table samples world = .error failure ↔
      (request.split = none ∧ Workload.generateFrom table request.config samples
        (world.generator request.seed) = .error failure) ∨
      ∃ workers, request.split = some workers ∧ ∃ worker < workers,
        Workload.generateFrom table request.config samples
          (request.workerGenerator world worker) = .error failure ∧
        ∀ earlier < worker, ∃ workload, Workload.generateFrom table request.config samples
          (request.workerGenerator world earlier) = .ok workload := by
  rw [generated.eq_def]
  cases request.split with
  | none =>
      cases Workload.generateFrom table request.config samples (world.generator request.seed) <;>
        simp
  | some workers =>
      let own (worker : Nat) := Workload.generateFrom table request.config samples
        (request.workerGenerator world worker)
      have hPool : collect own workers = .error failure ↔ _ := collect_eq_error_iff
      simp only [reduceCtorEq, false_and, false_or, Option.some.injEq, exists_eq_left']
      refine Iff.trans ?_ hPool
      change Partitioning.preSplit <$> collect own workers = .error failure ↔ _
      cases collect own workers <;> simp

theorem Stops.of_generated {samples : SampleSet} {table : ProfileTable}
    {failure : Failure GenerateError} (hLoads : request.Loads before samples table)
    (hValid : table.validate = .ok ())
    (h : request.generated table samples.size before = .error failure) :
    request.Stops before (failure.map .generate) := by
  obtain ⟨hSplit, hFails⟩ | ⟨workers, hSplit, worker, hWorker, hFails, hEarlier⟩ :=
    generated_eq_error_iff.mp h
  · exact .workload hLoads hValid hSplit hFails
  · exact .worker hLoads hValid hSplit hWorker hFails hEarlier

theorem stops_of_fails {failure : Failure CommandError}
    (h : Fails request.prepare before failure after) : request.Stops before failure := by
  -- Each step either is the one that fails, or has completed and is a premise for the next one.
  obtain hSamples | ⟨samples, _, hSamples, h⟩ := Fails.bind_iff.mp h
  · obtain ⟨error, hLoad, rfl⟩ := Fails.stage_iff.mp hSamples
    exact .samples hLoad
  rw [Completes.stage_iff] at hSamples
  obtain ⟨_, rfl⟩ := Completes.loadSamples_iff.mp hSamples
  obtain hTable | ⟨table, warned, hTable, h⟩ := Fails.bind_iff.mp h
  · obtain ⟨error, hLoad, rfl⟩ := Fails.stage_iff.mp hTable
    exact .profiles hSamples hLoad
  rw [Completes.stage_iff] at hTable
  have hLoads : request.Loads before samples table := ⟨hSamples, warned, hTable⟩
  obtain hChecked | ⟨_, _, hChecked, h⟩ := Fails.bind_iff.mp h
  · obtain ⟨⟨error, hInvalid, rfl⟩, _⟩ := Fails.check_iff.mp hChecked
    exact .invalid hLoads hInvalid
  obtain ⟨hValid, rfl⟩ := Completes.check_iff.mp hChecked
  obtain ⟨generators, hRan⟩ := run_generate request table samples.size warned
  have hEnded := congrArg Prod.fst (hRan.symm.trans h)
  rw [generated_of_loadTable hTable] at hEnded
  obtain ⟨failure, hGenerated, rfl⟩ := mapError_eq_error_iff.mp hEnded
  exact .of_generated hLoads hValid hGenerated

theorem fails_of_generated {samples : SampleSet} {table : ProfileTable}
    {failure : Failure GenerateError} (hLoads : request.Loads before samples table)
    (hValid : table.validate = .ok ())
    (h : request.generated table samples.size before = .error failure) :
    ∃ after, Fails request.prepare before (failure.map .generate) after := by
  obtain ⟨after, hRan⟩ := run_prepare hLoads hValid
  rw [h] at hRan
  exact ⟨after, hRan⟩

theorem fails_of_stops {failure : Failure CommandError} (h : request.Stops before failure) :
    ∃ after, Fails request.prepare before failure after := by
  cases h with
  | @samples error after hLoad =>
      exact ⟨after, Fails.first (Fails.stage_iff.mpr ⟨error, hLoad, rfl⟩)⟩
  | @profiles samples error after hSamples hLoad =>
      refine ⟨after, Fails.later (Completes.stage_iff.mpr hSamples) ?_⟩
      exact Fails.first (Fails.stage_iff.mpr ⟨error, hLoad, rfl⟩)
  | @invalid samples table error hLoads hInvalid =>
      obtain ⟨hSamples, warned, hTable⟩ := hLoads
      refine ⟨warned, Fails.later (Completes.stage_iff.mpr hSamples) ?_⟩
      refine Fails.later (Completes.stage_iff.mpr hTable) (Fails.first ?_)
      exact Fails.check_iff.mpr ⟨⟨error, hInvalid, rfl⟩, rfl⟩
  | workload hLoads hValid hSplit hFails =>
      exact fails_of_generated hLoads hValid (generated_eq_error_iff.mpr (.inl ⟨hSplit, hFails⟩))
  | worker hLoads hValid hSplit hWorker hFails hEarlier =>
      refine fails_of_generated hLoads hValid (generated_eq_error_iff.mpr (.inr ?_))
      exact ⟨_, hSplit, _, hWorker, hFails, hEarlier⟩

/-- A request that stops early leaves the files alone. -/
theorem perform_fails_of_stops {failure : Failure CommandError} (h : request.Stops before failure) :
    ∃ after, Fails request.perform before failure after ∧ after.files = before.files := by
  obtain ⟨after, hFails⟩ := fails_of_stops h
  exact ⟨after, Fails.first hFails, (prepare_leaves request).of_fails hFails⟩

/-- A request that fails has stopped early, or its output cannot be created. -/
theorem stops_or_not_created {failure : Failure CommandError}
    (h : Fails request.perform before failure after) :
    request.Stops before failure ∨ ∃ partitioning middle fault,
      request.Generates before partitioning ∧ middle.files = before.files ∧
      Fails (createFile request.output partitioning.print) middle fault after ∧
      failure = .error (.parse (.file fault)) := by
  obtain hEarly | ⟨partitioning, middle, hPrepared, hSave⟩ := Fails.bind_iff.mp h
  · exact .inl (stops_of_fails hEarly)
  · obtain ⟨_, hSaved, rfl⟩ := Fails.stage_iff.mp hSave
    rw [Partitioning.save_eq] at hSaved
    obtain ⟨fault, hCreate, rfl⟩ := Fails.adapt_iff.mp hSaved
    exact .inr ⟨partitioning, middle, fault, generates_of_completes hPrepared,
      (prepare_leaves request).after_completes hPrepared, hCreate, rfl⟩

/-- A request that succeeds has written its output and nothing else. -/
theorem wroteAlone_of_completes (h : Completes request.perform before () after) :
    ∃ partitioning, request.Generates before partitioning ∧
      before.files.WroteAlone (.ofText request.output) partitioning.print after.files := by
  obtain ⟨partitioning, middle, hPrepared, hSave⟩ := Completes.bind_iff.mp h
  refine ⟨partitioning, generates_of_completes hPrepared, ?_⟩
  rw [Completes.stage_iff, Partitioning.save_eq, Completes.adapt_iff] at hSave
  obtain ⟨_, files, hWritten, rfl⟩ := Completes.createFile_iff.mp hSave
  rw [← (prepare_leaves request).after_completes hPrepared]
  exact FileTree.wroteAlone hWritten

theorem Makes.readsBack {samples : Nat} {world : World} {path : String}
    (hMakes : request.Makes samples partitioning) (hSamples : samples ≤ wordMax)
    (hWorkers : ∀ workers ∈ request.split, workers ≤ wordMax)
    (hRead : world.files.read (.ofText path) = .ok partitioning.print) :
    partitioning.ReadsBack path world := by
  cases hMakes with
  | single hSplit hAsked =>
      exact Completes.parsed_iff.mpr
        ⟨⟨_, hRead, Workload.parse_print (hAsked.fits hSamples)⟩, rfl⟩
  | pool hSplit hAsked =>
      have hFits : Pool.Fits _ :=
        ⟨hWorkers _ hSplit, fun workload hWorkload => (hAsked workload hWorkload).fits hSamples⟩
      exact Completes.parsed_iff.mpr ⟨⟨_, hRead, Pool.parse_print hFits⟩, rfl⟩

end GenerateRequest

/-- Running and timing never change a file or a directory. Keys without letters are refused, and a
request to generate that fails at its inputs or in generating stops, with the files as they were:
no directory is made for its output, and an output that is there already keeps its content. It can
fail later in nothing but creating the output. If it succeeds, the output alone was written, besides
missing directories around it, and it reads back as what was generated; that holds for inputs in
the output's place, too. The sizes of the data and of the pool are words. -/
theorem commands_change_output_alone :
    (∀ (request : RunRequest) (verbose : Bool),
      LeavesFiles (request.perform verbose : CommandT (StateM World) String)) ∧
    (∀ request : BaselineRequest,
      LeavesFiles (request.perform : CommandT (StateM World) String)) ∧
    (∀ (request : SampleRequest) (before after : World) (size : Nat),
      Fails request.perform before (.error (.sample (.invalidKeySize size))) after ↔
        (request.shape.keySize = 0 ∧ size = 0) ∧ before = after) ∧
    ∀ (request : GenerateRequest) (before : World),
      (∀ failure, request.Stops before failure →
        ∃ after, Fails request.perform before failure after ∧ after.files = before.files) ∧
      (∀ failure after, Fails request.perform before failure after →
        request.Stops before failure ∨ ∃ partitioning middle fault,
          request.Generates before partitioning ∧ middle.files = before.files ∧
          Fails (createFile request.output partitioning.print) middle fault after ∧
          failure = .error (.parse (.file fault))) ∧
      ∀ after, Completes request.perform before () after → ∃ partitioning,
        request.Generates before partitioning ∧
        before.files.WroteAlone (.ofText request.output) partitioning.print after.files ∧
        ((∀ content, before.files.read (.ofText request.data) = .ok content →
            content.length ≤ wordMax) →
          (∀ workers ∈ request.split, workers ≤ wordMax) →
          partitioning.ReadsBack request.output after) := by
  refine ⟨LeavesFiles.run, LeavesFiles.baseline,
    fun _ _ _ _ => SampleRequest.fails_invalidKeySize_iff, fun request before => ?_⟩
  refine ⟨fun _ => GenerateRequest.perform_fails_of_stops,
    fun _ _ => GenerateRequest.stops_or_not_created, fun after hCompletes => ?_⟩
  obtain ⟨partitioning, hGenerates, hWrote⟩ := GenerateRequest.wroteAlone_of_completes hCompletes
  refine ⟨partitioning, hGenerates, hWrote, fun hContent hWorkers => ?_⟩
  obtain ⟨content, samples, hRead, hParse, hMakes⟩ := hGenerates.makes
  have hSamples : samples.size ≤ wordMax :=
    Nat.le_trans (SampleSet.size_le_of_parse hParse) (hContent content hRead)
  exact hMakes.readsBack hSamples hWorkers hWrote.read

/-- A directory is made for three transactions, and none for those that cannot be generated. -/
theorem commands_change_output_alone_new_directory :
    let data := Bytes.ofText "a;1\nb;2\n"
    let profiles :=
      Bytes.ofText "\x7b\"reads\": \x7b\"prob\": 100, \"ops\": \x7b\"get\": 100\x7d\x7d\x7d"
    let before : World :=
      { files := (({} : FileTree).put ["d"] (.file data)).put ["p"] (.file profiles) }
    let request : GenerateRequest :=
      { data := "d", profile := "p", output := "o/w", config := { transactions := 3 } }
    let unbounded : GenerateRequest :=
      { request with config := { transactions := 3, lengthMin := 0 }, split := some 2 }
    (∃ (after : World) (partitioning : Partitioning), Completes request.perform before () after ∧
      before.files.WroteAlone (.ofText "o/w") partitioning.print after.files ∧
      partitioning.ReadsBack "o/w" after) ∧
    ∃ after, Fails unbounded.perform before (.error (.generate (.invalidLengthBounds 0 64))) after ∧
      after.files = before.files := by
  have hTree (data profiles content : Bytes) :
      let tree := (({} : FileTree).put ["d"] (.file data)).put ["p"] (.file profiles)
      let made := tree.put ["o"] .directory
      tree.makeParents (.ofText "o/w") = (.ok (), made) ∧
        made.write (.ofText "o/w") content = .ok (made.put ["o", "w"] (.file content)) := by
    constructor <;> cbv
  intro data profiles before request unbounded
  let whole : Binary64 := .finite false (100 * Binary64.one)
  let table : ProfileTable := [⟨"reads", whole, [(.get, whole)], 0, 0⟩]
  have hTable : ProfileTable.parse profiles = (.ok table, []) := by decide +kernel
  have hValid : table.validate = .ok () := by decide +kernel
  obtain ⟨hRead, hProfiles⟩ := FileTree.read_inputs data profiles
  have hLoads : request.Loads before #[⟨[97], [49]⟩, ⟨[98], [50]⟩] table :=
    GenerateRequest.loads_of_files hRead SampleSet.parse_two_pairs hProfiles hTable
  obtain ⟨-, -, -, hGenerate⟩ := commands_change_output_alone
  constructor
  · have hWhole : table.Whole := by
      have hOne : whole.IsWhole := ⟨false, 100, rfl⟩
      simp [table, ProfileTable.Whole, Profile.Whole, hOne]
    have hRoomy : Generation.Roomy table request.config :=
      Generation.roomy_of_mem hWhole hValid (by decide) (by decide)
    obtain ⟨after, hCompletes⟩ : ∃ after, Completes request.perform before () after :=
      GenerateRequest.exists_completes hLoads hWhole hValid (by decide) (show 1 ≤ 2 by decide)
        hRoomy (hTree data profiles []).1 fun content => ⟨_, (hTree data profiles content).2⟩
    obtain ⟨-, -, hSucceeds⟩ := hGenerate request before
    obtain ⟨partitioning, _, hWrote, hReadsBack⟩ := hSucceeds _ hCompletes
    refine ⟨_, partitioning, hCompletes, hWrote, hReadsBack ?_ (by simp [request])⟩
    intro content hFound
    cases hRead.symm.trans hFound
    decide
  · have hRefused (generator : Generator) :
        Workload.generateFrom table unbounded.config 2 generator =
          .error (.error (.invalidLengthBounds 0 64)) :=
      Generation.workload_bounds (show 0 < 1 ∨ 64 < 0 by decide) generator
    have hStops : unbounded.Stops before
        ((Failure.error (.invalidLengthBounds 0 64)).map .generate) :=
      .worker ⟨hLoads.samples, hLoads.table⟩ hValid rfl Nat.two_pos (hRefused _)
        fun earlier hEarlier => absurd hEarlier (Nat.not_lt_zero earlier)
    obtain ⟨hUnchanged, -⟩ := hGenerate unbounded before
    exact hUnchanged _ hStops

end StoreBench
