import StoreBench.Duration
import StoreBench.Run.Executor
import StoreBench.Sample.Generation
import StoreBench.Workload.Generation

/-! What can be asked for on the command line. -/
namespace StoreBench

/-- How a report is printed. -/
inductive ReportFormat where
  | text
  | json
deriving DecidableEq, Repr

structure SampleRequest where
  shape : SampleShape
  output : String
  seed : Option UInt64 := none
deriving DecidableEq, Repr

structure GenerateRequest where
  data : String
  profile : String
  output : String
  config : GenerationConfig := {}
  seed : Option UInt64 := none
  /-- The number of workloads of a pool; a single workload if there is none. -/
  split : Option Nat := none
deriving DecidableEq, Repr

structure RunRequest where
  data : String
  workload : String
  /-- The workload file holds a pool. -/
  pool : Bool := false
  config : RunConfig := {}
  unit : TimeUnit := .s
  format : ReportFormat := .text
deriving DecidableEq, Repr

structure BaselineRequest where
  data : String
  operation : Operation
  repeats : Nat := 1000
  unit : TimeUnit := .s
  seed : Option UInt64 := none
deriving DecidableEq, Repr

inductive Request where
  | samples (request : SampleRequest)
  | generate (request : GenerateRequest)
  | run (request : RunRequest)
  | baseline (request : BaselineRequest)
deriving DecidableEq, Repr

/-- A request with the results of each worker, if they are asked for. -/
structure Invocation where
  verbose : Bool
  request : Request
deriving DecidableEq, Repr

end StoreBench
