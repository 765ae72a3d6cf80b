import StoreBench.Command.Basic
import StoreBench.Command.Error
import StoreBench.Files.Documents
import StoreBench.Latency
import StoreBench.Run.Report
import StoreBench.Store.Versioned

/-! Carrying out requests. A command reads and checks everything it needs before it writes
anything, and it writes at most one file. -/
namespace StoreBench

variable {m : Type → Type} [Monad m]

/-- A command on a machine: it may end with an error, or in a fault. -/
abbrev CommandT (m : Type → Type) := ExceptT (Failure CommandError) m

namespace CommandT

/-- A stage with errors of its own. -/
def stage {ε α : Type} (wrap : ε → CommandError) (action : ExceptT ε m α) : CommandT m α :=
  action.adapt fun e => .error (wrap e)

/-- A stage that only computes. -/
def check {ε α : Type} (wrap : ε → CommandError) (result : Except ε α) : CommandT m α :=
  stage wrap (ExceptT.mk (pure result))

/-- A computation that may meet a fault. -/
def sound {α : Type} (result : Except Fault α) : CommandT m α :=
  ExceptT.mk (pure (Failure.ofFault result))

/-- A computation that may fail in either way. -/
def failure {ε α : Type} (wrap : ε → CommandError) (result : Except (Failure ε) α) :
    CommandT m α :=
  ExceptT.mk (pure (result.mapError (Failure.map wrap)))

end CommandT

open CommandT

variable [Machine m]

/-- The stream of the seed, or a fresh one without a seed. -/
def streamOr (seed : Option UInt64) : CommandT m WordStream :=
  match seed with
  | some seed => pure (.ofSeed seed)
  | none => ExceptT.lift Machine.freshStream

/-- The generator of the seed, or one with fresh streams without a seed. -/
def generatorOr (seed : Option UInt64) : CommandT m Generator :=
  match seed with
  | some seed => pure (.ofSeed seed)
  | none => do
    let choices ← ExceptT.lift Machine.freshStream
    let lengths ← ExceptT.lift Machine.freshStream
    return { choices, lengths }

/-- A fresh store that holds the sample data. -/
def populatedStore (samples : SampleSet) : CommandT m VersionedStore :=
  match VersionedStore.populate {} samples with
  | (.ok, store) => pure store
  | (status, _) => throw (.error (.populate status))

namespace SampleRequest

def perform (request : SampleRequest) : CommandT m Unit := do
  check .sample request.shape.validate
  let stream ← streamOr request.seed
  let samples ← sound (request.shape.make stream)
  stage .sample (SampleSet.save request.output samples)

end SampleRequest

namespace GenerateRequest

/-- A workload for so many pairs, from a generator of its own. -/
def workload (request : GenerateRequest) (table : ProfileTable) (samples : Nat)
    (seed : Option UInt64) : CommandT m Workload := do
  let generator ← generatorOr seed
  failure .generate (Workload.generateFrom table request.config samples generator)

/-- The seed of one worker, if the request has one. -/
def workerSeed (request : GenerateRequest) (worker : Nat) : Option UInt64 :=
  request.seed.map fun seed => deriveSeed seed worker.toUInt64

/-- One workload, or one for each worker. The first failure counts. -/
def generate (request : GenerateRequest) (table : ProfileTable) (samples : Nat) :
    CommandT m Partitioning :=
  match request.split with
  | some workers =>
    .preSplit <$> collect (fun worker =>
      request.workload table samples (request.workerSeed worker)) workers
  | none => .shared <$> request.workload table samples request.seed

/-- All that comes before saving. -/
def prepare (request : GenerateRequest) : CommandT m Partitioning := do
  let samples ← stage .sample (SampleSet.load request.data)
  let table ← stage .parse (ProfileTable.load request.profile)
  check .profile table.validate
  request.generate table samples.size

def perform (request : GenerateRequest) : CommandT m Unit := do
  let partitioning ← request.prepare
  stage .parse (partitioning.save request.output)

end GenerateRequest

namespace RunRequest

def partitioning (request : RunRequest) : CommandT m Partitioning :=
  if request.pool then .preSplit <$> stage .parse (Pool.load request.workload)
  else .shared <$> stage .parse (Workload.load request.workload)

def report (request : RunRequest) : CommandT m Report := do
  check .config request.config.validate
  let samples ← stage .sample (SampleSet.load request.data)
  let store ← populatedStore samples
  let partitioning ← request.partitioning
  let host ← ExceptT.lift Machine.host
  let outcome ← ExceptT.lift (Run.run Machine.stopwatch host request.config VersionedStore.calls
    samples partitioning store)
  for warning in outcome.warnings do
    ExceptT.lift (Machine.warn warning.message)
  let summary ← failure .run outcome.result
  sound (Report.ofSummary summary request.unit)

def perform (request : RunRequest) (verbose : Bool) : CommandT m String := do
  let report ← request.report
  match request.format with
  | .text => return report.text verbose
  | .json => return (Bytes.toText? report.document).getD "" ++ "\n"

end RunRequest

namespace BaselineRequest

def stats (request : BaselineRequest) : CommandT m (Option LatencyStats) := do
  let samples ← stage .sample (SampleSet.load request.data)
  let store ← populatedStore samples
  let stream ← streamOr request.seed
  let (measured, _) ← ExceptT.lift (Baseline.measure Machine.stopwatch VersionedStore.calls samples
    request.operation request.repeats stream store)
  sound (LatencyStats.ofSamples (← failure .config measured))

def perform (request : BaselineRequest) : CommandT m String := do
  match ← request.stats with
  | some stats => return stats.text request.unit
  | none => return "no samples\n"

end BaselineRequest

namespace Invocation

/-- Carries out a request and gives what it prints. -/
def perform (invocation : Invocation) : CommandT m String :=
  match invocation.request with
  | .samples request => do
    request.perform
    return ""
  | .generate request => do
    request.perform
    return ""
  | .run request => request.perform invocation.verbose
  | .baseline request => request.perform

end Invocation

end StoreBench
