import StoreBench.Proofs.Command.Generating
import StoreBench.Proofs.Sample.Document
import StoreBench.Proofs.Workload.Generation
import StoreBench.Proofs.Workload.RoundTrip

/-! What was generated can be run. The transactions come back from their file as they were made,
and refer to pairs of the data that they were made for; so a run on both files starts, and all that
it is to replay is settled. -/
namespace StoreBench

/-- As many transactions as were asked for. Memory has room for all of them, and they refer to pairs
alone. -/
structure Workload.Asked (config : GenerationConfig) (samples : Nat) (workload : Workload) :
    Prop where
  length : workload.length = config.transactions
  room : workload.length * Transaction.width ≤ memoryMax
  roomEach : ∀ tx ∈ workload, tx.length * Command.width ≤ memoryMax
  positions : ∀ tx ∈ workload, ∀ command ∈ tx, command.index < samples

namespace Workload

variable {config : GenerationConfig} {samples : Nat} {workload : Workload}

theorem asked_of_generateFrom {table : ProfileTable} {generator : Generator}
    (h : generateFrom table config samples generator = .ok workload) :
    workload.Asked config samples := by
  rw [generateFrom] at h
  obtain ⟨hLength, hRoom, hDrawn⟩ := (Generation.workload_yields table config samples).of_ok h
  rw [← hLength] at hRoom
  refine ⟨hLength, hRoom, ?_, ?_⟩
  · intro tx hTx
    exact (hDrawn tx hTx).1
  · intro tx hTx
    obtain ⟨_, profile, _, hDraws⟩ := hDrawn tx hTx
    exact hDraws.positions

/-- What memory has room for has sizes that are words. -/
theorem Asked.fits (h : workload.Asked config samples) (hSamples : samples ≤ wordMax) :
    workload.Fits := by
  have hWord {count width : Nat} (hSome : 1 ≤ width) (hRoom : count * width ≤ memoryMax) :
      count ≤ wordMax := by
    have hMost : count ≤ count * width := Nat.le_mul_of_pos_right count hSome
    have hWords : memoryMax ≤ wordMax := by decide
    omega
  refine ⟨hWord (by decide) h.room, fun tx hTx => ⟨hWord (by decide) (h.roomEach tx hTx), ?_⟩⟩
  intro command hCommand
  have hLess := h.positions tx hTx command hCommand
  omega

end Workload

namespace GenerateRequest

/-- What a request comes to: a workload, or a pool of them, for so many pairs. -/
inductive Makes (request : GenerateRequest) (samples : Nat) : Partitioning → Prop where
  | single {workload : Workload} (hSplit : request.split = none)
      (h : workload.Asked request.config samples) : Makes request samples (.shared workload)
  | pool {pool : Pool} (hSplit : request.split = some pool.length)
      (h : ∀ workload ∈ pool, Workload.Asked request.config samples workload) :
      Makes request samples (.preSplit pool)

/-- The largest number of threads: one for each transaction, or one for each workload of a pool. -/
def mostThreads (request : GenerateRequest) : Nat :=
  request.split.getD request.config.transactions

/-- The number of transactions that a run with so many threads replays. -/
def replayed (request : GenerateRequest) (threads : Nat) : Nat :=
  match request.split with
  | none => request.config.transactions
  | some _ => threads * request.config.transactions

variable {request : GenerateRequest} {before after : World} {table : ProfileTable} {samples : Nat}
  {partitioning : Partitioning}

/-- What is made has as many transactions as were asked for. -/
theorem makes_of_generated (h : request.generated table samples before = .ok partitioning) :
    request.Makes samples partitioning := by
  rw [generated.eq_def] at h
  cases hSplit : request.split with
  | none =>
      simp only [hSplit, map_eq_pure_bind] at h
      obtain ⟨workload, hMade, hShared⟩ := exists_of_bind_eq_ok h
      cases hShared
      exact .single hSplit (Workload.asked_of_generateFrom hMade)
  | some workers =>
      simp only [hSplit, map_eq_pure_bind] at h
      obtain ⟨pool, hMade, hSplitUp⟩ := exists_of_bind_eq_ok h
      cases hSplitUp
      obtain ⟨rfl, hEach⟩ := of_collect_eq_ok hMade
      refine .pool hSplit fun workload hWorkload => ?_
      obtain ⟨_, hOwn⟩ := hEach workload hWorkload
      exact Workload.asked_of_generateFrom hOwn

theorem Generates.makes (h : request.Generates before partitioning) :
    ∃ content samples, before.files.read (.ofText request.data) = .ok content ∧
      SampleSet.parse content = .ok samples ∧ request.Makes samples.size partitioning := by
  obtain ⟨samples, _, hLoads, _, hGenerated⟩ := h
  obtain ⟨⟨content, hRead, hParse⟩, _⟩ := Completes.loadSamples_iff.mp hLoads.samples
  exact ⟨content, samples, hRead, hParse, makes_of_generated hGenerated⟩

/-- A valid table makes something of every sample data, if there are pairs to be drawn. -/
theorem exists_generated (hWhole : table.Whole) (hValid : table.validate = .ok ())
    (hBounds : ¬(request.config.lengthMin < 1 ∨ request.config.lengthMax < request.config.lengthMin))
    (hSome : 1 ≤ samples) (hRoomy : Generation.Roomy table request.config) (world : World) :
    ∃ partitioning, request.generated table samples world = .ok partitioning := by
  have hOwn := Generation.exists_workload hWhole hValid hBounds hSome hRoomy
  rw [generated.eq_def]
  cases request.split with
  | none =>
      obtain ⟨workload, hMade⟩ := hOwn (world.generator request.seed)
      dsimp only
      rw [hMade]
      exact ⟨.shared workload, rfl⟩
  | some workers =>
      obtain ⟨pool, hMade⟩ := exists_collect_iff.mpr fun worker (_ : worker < workers) =>
        hOwn (request.workerGenerator world worker)
      dsimp only
      rw [hMade]
      exact ⟨.preSplit pool, rfl⟩

/-- A request with inputs in order completes, if its output can be written. -/
theorem exists_completes {samples : SampleSet} {made : FileTree}
    (hLoads : request.Loads before samples table) (hWhole : table.Whole)
    (hValid : table.validate = .ok ())
    (hBounds : ¬(request.config.lengthMin < 1 ∨ request.config.lengthMax < request.config.lengthMin))
    (hSome : 1 ≤ samples.size) (hRoomy : Generation.Roomy table request.config)
    (hMade : before.files.makeParents (.ofText request.output) = (.ok (), made))
    (hWritten : ∀ content, ∃ files, made.write (.ofText request.output) content = .ok files) :
    ∃ after, Completes request.perform before () after := by
  obtain ⟨partitioning, hGenerated⟩ :=
    exists_generated hWhole hValid hBounds hSome hRoomy before
  have hGenerates : request.Generates before partitioning :=
    ⟨samples, table, hLoads, hValid, hGenerated⟩
  obtain ⟨files, hOutput⟩ := hWritten partitioning.print
  obtain ⟨after, hCompletes, _⟩ := hGenerates.completes hMade hOutput
  exact ⟨after, hCompletes⟩

theorem makes_of_completes (h : Completes request.perform before () after) :
    ∃ content samples partitioning,
      before.files.read (.ofText request.data) = .ok content ∧
      SampleSet.parse content = .ok samples ∧ request.Makes samples.size partitioning ∧
      before.files.Created (.ofText request.output) partitioning.print after.files := by
  obtain ⟨partitioning, middle, hPrepared, hSave⟩ := Completes.bind_iff.mp h
  obtain ⟨content, samples, hRead, hParse, hMakes⟩ := (generates_of_completes hPrepared).makes
  refine ⟨content, samples, partitioning, hRead, hParse, hMakes, ?_⟩
  rw [Completes.stage_iff, Partitioning.save_eq, Completes.adapt_iff] at hSave
  rw [← (prepare_leaves request).after_completes hPrepared]
  exact Completes.createFile_created hSave

/-- What was made is loaded as it was. -/
theorem Makes.loads (hMakes : request.Makes samples partitioning) (hSamples : samples ≤ wordMax)
    (hWorkers : ∀ workers ∈ request.split, workers ≤ wordMax) {run : RunRequest}
    (hPool : run.pool = request.split.isSome) {world : World}
    (hRead : world.files.read (.ofText run.workload) = .ok partitioning.print) :
    Completes run.partitioning world partitioning world := by
  cases hMakes with
  | @single workload hSplit hAsked =>
      have hParse := Workload.parse_print (hAsked.fits hSamples)
      have hLoad : Completes (Workload.load run.workload) world workload world :=
        Completes.parsed_iff.mpr ⟨⟨_, hRead, hParse⟩, rfl⟩
      have hSingle : ¬run.pool = true := by simp [hPool, hSplit]
      rw [RunRequest.partitioning, if_neg hSingle]
      exact Completes.map_iff.mpr ⟨workload, Completes.stage_iff.mpr hLoad, rfl⟩
  | @pool pool hSplit hAsked =>
      have hFits : pool.Fits :=
        ⟨hWorkers _ hSplit, fun workload hWorkload => (hAsked workload hWorkload).fits hSamples⟩
      have hLoad : Completes (Pool.load run.workload) world pool world :=
        Completes.parsed_iff.mpr ⟨⟨_, hRead, Pool.parse_print hFits⟩, rfl⟩
      have hMany : run.pool = true := by simp [hPool, hSplit]
      rw [RunRequest.partitioning, if_pos hMany]
      exact Completes.map_iff.mpr ⟨pool, Completes.stage_iff.mpr hLoad, rfl⟩

/-- What was made can be spread over any number of threads from one to the largest. -/
theorem Makes.prepared {samples : SampleSet} (hMakes : request.Makes samples.size partitioning)
    {config : RunConfig} (hRatio : 1 ≤ config.layout.smtRatio) (hThreads : 1 ≤ config.threads)
    (hMost : config.threads ≤ request.mostThreads) :
    ∃ assignments, Run.prepare config samples partitioning = .ok assignments ∧
      (assignments.map List.length).sum = request.replayed config.threads := by
  cases hMakes with
  | @single workload hSplit hAsked =>
      rw [mostThreads, hSplit, Option.getD_none, ← hAsked.length] at hMost
      rw [replayed, hSplit, ← hAsked.length]
      refine Run.prepare_shared hRatio hThreads hMost ?_ hAsked.positions
      have hWidth : Range.width ≤ Transaction.width := by decide
      exact Nat.le_trans (Nat.mul_le_mul hMost hWidth) hAsked.room
  | @pool pool hSplit hAsked =>
      rw [mostThreads, hSplit, Option.getD_some] at hMost
      rw [replayed, hSplit]
      exact Run.prepare_preSplit hRatio hThreads hMost
        (fun workload hWorkload => (hAsked workload hWorkload).length)
        fun workload hWorkload => (hAsked workload hWorkload).positions

end GenerateRequest

/-- The run replays what the request has generated, on the same data and with no worker pinned. -/
structure RunRequest.Replays (run : RunRequest) (request : GenerateRequest) : Prop where
  data : run.data = request.data
  workload : run.workload = request.output
  pool : run.pool = request.split.isSome
  unpinned : run.config.layout.pin = false
  ratio : 1 ≤ run.config.layout.smtRatio
  some : 1 ≤ run.config.threads
  most : run.config.threads ≤ request.mostThreads

/-- The report tells of so many transactions, each of them committed or canceled. -/
structure Report.Settles (report : Report) (transactions : Nat) : Prop where
  assigned : report.totals.assigned = transactions
  settled : report.totals.committed + report.totals.canceledTxs = report.totals.assigned

/-- What was generated can be run, by any number of threads from one to the largest and with any
number of retries, as long as the output has not replaced the data. The run is reported, and all
transactions that it was to replay are settled; a single thread commits all of them at the first
attempt. Threads that are in each other's way make no difference: the run on what is loaded from
both files is reported like that for every store whose calls return, whatever they answer. The
sizes of the data, of the pool and of what is replayed are words, and so are all tallies. -/
theorem generated_runs (request : GenerateRequest) (before after : World)
    (hGenerated : Completes request.perform before () after)
    (hElsewhere : ¬after.files.SamePlace (.ofText request.data) (.ofText request.output))
    (hContent : ∀ content, before.files.read (.ofText request.data) = .ok content →
      content.length ≤ wordMax)
    (hWorkers : ∀ workers ∈ request.split, workers ≤ wordMax)
    (run : RunRequest) (hRun : run.Replays request)
    (hWords : request.replayed run.config.threads ≤ wordMax) :
    (∃ report last, Completes run.report after report last ∧
      report.Settles (request.replayed run.config.threads) ∧
      (run.config.threads = 1 → report.totals.failures = 0 ∧ report.totals.canceledTxs = 0)) ∧
    ∃ samples partitioning assignments,
      Completes (SampleSet.load run.data) after samples after ∧
      Completes run.partitioning after partitioning after ∧
      Run.prepare run.config samples partitioning = .ok assignments ∧
      ∀ (σ τ : Type) (store : Store σ τ) (state : σ) (outcome : RunOutcome σ), store.Returns →
        outcome = Id.run (Run.run (.noted after.windows) after.host run.config store samples
          partitioning state) →
        (∀ replayed ∈ (Run.replays store samples run.config.retries assignments state).1,
          replayed ≠ .error .overflow) →
        outcome.result ≠ .error (.fault .overflow) →
        ∃ summary report, outcome.result = .ok summary ∧
          Report.ofSummary summary run.unit = .ok report ∧
          report.Settles (request.replayed run.config.threads) := by
  obtain ⟨content, samples, partitioning, hRead, hParse, hMakes, hCreated⟩ :=
    GenerateRequest.makes_of_completes hGenerated
  have hSamples : samples.size ≤ wordMax :=
    Nat.le_trans (SampleSet.size_le_of_parse hParse) (hContent content hRead)
  have hLoadSamples : Completes (SampleSet.load run.data) after samples after := by
    rw [hRun.data]
    exact Completes.loadSamples_iff.mpr
      ⟨⟨content, hCreated.others _ _ hRead hElsewhere, hParse⟩, rfl⟩
  have hLoad : Completes run.partitioning after partitioning after := by
    apply hMakes.loads hSamples hWorkers hRun.pool
    rw [hRun.workload]
    exact hCreated.content
  obtain ⟨assignments, hPrepared, hSum⟩ := hMakes.prepared hRun.ratio hRun.some hRun.most
  rw [← hSum] at hWords ⊢
  constructor
  · obtain ⟨report, last, hReport, hTotals⟩ :=
      Completes.report hLoadSamples hLoad hRun.unpinned hPrepared hWords
    have hAtOnce : report.totals.failures = 0 ∧ report.totals.canceledTxs = 0 := by
      rw [hTotals]
      exact ⟨rfl, rfl⟩
    refine ⟨report, last, hReport, ⟨?_, ?_⟩, fun _ => hAtOnce⟩
    · rw [hTotals]
      rfl
    · rw [hTotals]
      rfl
  · refine ⟨samples, partitioning, assignments, hLoadSamples, hLoad, hPrepared, ?_⟩
    rintro σ τ store state outcome hReturns rfl hFits hTotals
    obtain ⟨summary, hSummary, hAssigned, hSettled⟩ :=
      Run.exists_settled after.windows after.host hRun.unpinned hPrepared hReturns hFits hTotals
    obtain ⟨report, hReport, hSame⟩ := Report.exists_ofSummary hSettled run.unit
    exact ⟨summary, report, hSummary, hReport, hSame ▸ hAssigned, hSame ▸ hSettled⟩

/-- Two files in the working directory. -/
theorem FileTree.read_inputs (data profiles : Bytes) :
    let tree := (({} : FileTree).put ["d"] (.file data)).put ["p"] (.file profiles)
    tree.read (.ofText "d") = .ok data ∧ tree.read (.ofText "p") = .ok profiles := by
  constructor <;> cbv

theorem SampleSet.parse_two_pairs : SampleSet.parse (Bytes.ofText "a;1\nb;2\n") =
    .ok #[⟨[97], [49]⟩, ⟨[98], [50]⟩] := by cbv

/-- Two threads share three transactions. -/
theorem generated_runs_two_threads :
    let data := Bytes.ofText "a;1\nb;2\n"
    let profiles := Bytes.ofText
      "\x7b\"mixed\": \x7b\"prob\": 100, \"ops\": \x7b\"get\": 40, \"put\": 60\x7d\x7d\x7d"
    let before : World :=
      { files := (({} : FileTree).put ["d"] (.file data)).put ["p"] (.file profiles) }
    let request : GenerateRequest :=
      { data := "d", profile := "p", output := "w", seed := some 7,
        config := { transactions := 3 } }
    let run : RunRequest :=
      { data := "d", workload := "w", config := { threads := 2, layout := { pin := false } } }
    ∃ after report last, Completes request.perform before () after ∧
      Completes run.report after report last ∧ report.Settles 3 := by
  have hMade (tree : FileTree) : tree.makeParents (.ofText "w") = (.ok (), tree) := by cbv
  have hWritten (data profiles content : Bytes) :
      let tree := (({} : FileTree).put ["d"] (.file data)).put ["p"] (.file profiles)
      tree.write (.ofText "w") content = .ok (tree.put ["w"] (.file content)) := by cbv
  have hPlaces (tree : FileTree) : ¬tree.SamePlace (.ofText "d") (.ofText "w") := by
    have hData : tree.locate (.ofText "d") = .ok (["d"], tree.node? ["d"]) := by cbv
    have hWorkload : tree.locate (.ofText "w") = .ok (["w"], tree.node? ["w"]) := by cbv
    rintro ⟨place, hFirst, hSecond⟩
    rw [hData] at hFirst
    rw [hWorkload] at hSecond
    cases hFirst
    simp at hSecond
  intro data profiles before request run
  let percent (n : Nat) : Binary64 := .finite false (n * Binary64.one)
  let table : ProfileTable :=
    [⟨"mixed", percent 100, [(.get, percent 40), (.put, percent 60)], 0, 0⟩]
  have hTable : ProfileTable.parse profiles = (.ok table, []) := by decide +kernel
  have hValid : table.validate = .ok () := by decide +kernel
  have hPercent (n : Nat) : (percent n).IsWhole := ⟨false, n, rfl⟩
  have hWhole : table.Whole := by
    simp only [table, ProfileTable.Whole, Profile.Whole, List.forall_mem_cons, hPercent]
    simp
  have hRoomy : Generation.Roomy table request.config :=
    Generation.roomy_of_mem hWhole hValid (by decide) (by decide)
  obtain ⟨hRead, hProfiles⟩ := FileTree.read_inputs data profiles
  obtain ⟨after, hCompletes⟩ : ∃ after, Completes request.perform before () after :=
    GenerateRequest.exists_completes
      (GenerateRequest.loads_of_files hRead SampleSet.parse_two_pairs hProfiles hTable) hWhole
      hValid (by decide) (show 1 ≤ 2 by decide) hRoomy (hMade _)
      fun content => ⟨_, hWritten data profiles content⟩
  have hContent : ∀ content, before.files.read (.ofText "d") = .ok content →
      content.length ≤ wordMax := by
    intro content hFound
    cases hRead.symm.trans hFound
    decide
  have hRun : run.Replays request := ⟨rfl, rfl, rfl, rfl, by decide, by decide, by decide⟩
  have hWords : request.replayed run.config.threads ≤ wordMax := by decide
  obtain ⟨⟨report, last, hReport, hSettles, _⟩, _⟩ := generated_runs request before _ hCompletes
    (hPlaces _) hContent (by simp [request]) run hRun hWords
  exact ⟨_, report, last, hCompletes, hReport, hSettles⟩

end StoreBench
