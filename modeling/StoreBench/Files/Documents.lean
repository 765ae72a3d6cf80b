import StoreBench.Files.Machine
import StoreBench.Profile.Document
import StoreBench.Run.Partition
import StoreBench.Sample.Document
import StoreBench.Workload.Document

/-! Loading and saving. Saving makes missing directories first, then creates the file, and only
then looks whether everything can be printed, so a failure may leave the beginning in the file. -/
namespace StoreBench

variable {m : Type → Type} [Monad m] [Machine m]

/-- Creates a file, with the directories that it lies in. -/
def createFile (path : String) (content : Bytes) : ExceptT FileFault m Unit := do
  ExceptT.mk (Machine.makeParents path)
  ExceptT.mk (Machine.writeFile path content)

namespace SampleSet

def load (path : String) : ExceptT SampleError m SampleSet := do
  match ← ExceptT.lift (Machine.readFile path) with
  | .error e => throw (.file e.fault)
  | .ok bytes => ExceptT.mk (pure (SampleSet.parse bytes))

def save (path : String) (samples : SampleSet) : ExceptT SampleError m Unit := do
  let (content, printed) := samples.print
  (createFile path content).adapt .file
  ExceptT.mk (pure printed)

end SampleSet

/-- The bytes of a document. One that can be opened and not read is a faulty document. -/
def loadDocument (path : String) : ExceptT ParseError m Bytes := do
  match ← ExceptT.lift (Machine.readFile path) with
  | .error (.opening fault) => throw (.file fault)
  | .error (.reading _) => throw (.document .unreadable)
  | .ok bytes => return bytes

namespace ProfileTable

/-- Loads a table and logs what was ignored in it. -/
def load (path : String) : ExceptT ParseError m ProfileTable := do
  let (table, ignored) := ProfileTable.parse (← loadDocument path)
  for unknown in ignored do
    ExceptT.lift (Machine.warn unknown.message)
  ExceptT.mk (pure table)

end ProfileTable

namespace Workload

def load (path : String) : ExceptT ParseError m Workload := do
  ExceptT.mk (pure (Workload.parse (← loadDocument path)))

def save (path : String) (workload : Workload) : ExceptT ParseError m Unit :=
  (createFile path workload.print).adapt .file

end Workload

namespace Pool

def load (path : String) : ExceptT ParseError m Pool := do
  ExceptT.mk (pure (Pool.parse (← loadDocument path)))

def save (path : String) (pool : Pool) : ExceptT ParseError m Unit :=
  (createFile path pool.print).adapt .file

end Pool

def Partitioning.save (path : String) : Partitioning → ExceptT ParseError m Unit
  | .shared workload => workload.save path
  | .preSplit pool => pool.save path

end StoreBench
