import StoreBench.Profile.Coverage
import StoreBench.Run.Error
import StoreBench.Sample.Basic
import StoreBench.Store.Basic
import StoreBench.Workload.Document
import StoreBench.Workload.Generation

/-! Why a command fails: the errors of its stages under one type, with the stage in the wording. -/
namespace StoreBench

inductive CommandError where
  | sample (error : SampleError)
  | parse (error : ParseError)
  | profile (error : ProfileError)
  | generate (error : GenerateError)
  | config (error : ConfigError)
  | run (error : RunError)
  /-- The store refused the sample data. -/
  | populate (status : Status)
deriving DecidableEq, Repr

def CommandError.message : CommandError → String
  | .sample e => s!"Sample data error: {e.message}"
  | .parse e => s!"Parse error: {e.message}"
  | .profile e => s!"Profile error: {e.message}"
  | .generate e => s!"Generation error: {e.message}"
  | .config e => s!"Configuration error: {e.message}"
  | .run e => s!"Execution error: {e.message}"
  | .populate status => s!"loading sample data into the store failed with {status.display}"

end StoreBench
