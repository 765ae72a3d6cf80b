import StoreBench.Files.Fault
import StoreBench.Json.Layout
import StoreBench.Json.Reader
import StoreBench.Workload.Basic

/-! Workloads and pools as documents. Every list is written with its size, and on reading the
sizes are checked from the outside in, so that a document cut or edited by hand is noticed. -/
namespace StoreBench

/-- Why a profile or workload document is refused. -/
inductive ParseError where
  | file (fault : FileFault)
  | document (fault : DocumentFault)
  | missingField (profile field : String)
  | noOperations (profile : String)
  | unexpectedOpcode (spelling : String)
  | sizeMismatch (what : String) (declared actual : Nat)
deriving DecidableEq, Repr

/-- The wording. The fault of a document has none of its own: its category says it all. -/
def ParseError.message : ParseError → String
  | .file fault => fault.message
  | .document _ => "Malformed document"
  | .missingField profile field => s!"profile '{profile}' lacks the '{field}' field"
  | .noOperations profile => s!"profile '{profile}' contains no recognized operation (get, put)"
  | .unexpectedOpcode spelling => s!"unexpected opcode '{spelling}'"
  | .sizeMismatch what declared actual =>
    s!"{what} declares size {declared} but holds {actual} entries"

namespace Operation

def parse (spelling : String) : Except ParseError Operation :=
  match ofSpelling? spelling with
  | some op => .ok op
  | none => .error (.unexpectedOpcode spelling)

end Operation

/-- A command as its document spells it. -/
structure CommandDocument where
  spelling : String := ""
  position : Nat := 0
deriving DecidableEq, Repr

/-- A transaction with the size that it declares. -/
structure TransactionDocument where
  size : Nat := 0
  commands : List CommandDocument := []
deriving DecidableEq, Repr

structure WorkloadDocument where
  size : Nat := 0
  transactions : List TransactionDocument := []
deriving DecidableEq, Repr

structure PoolDocument where
  size : Nat := 0
  workloads : List WorkloadDocument := []
deriving DecidableEq, Repr

def checkSize (what : String) (declared actual : Nat) : Except ParseError Unit :=
  if declared = actual then .ok () else .error (.sizeMismatch what declared actual)

namespace CommandDocument

open Json (Layout.object Layout.quoted Reader)

def ofCommand (command : Command) : CommandDocument :=
  ⟨command.operation.spelling, command.index⟩

def toCommand (d : CommandDocument) : Except ParseError Command := do
  return ⟨← Operation.parse d.spelling, d.position⟩

def print (depth : Nat) (d : CommandDocument) : Bytes :=
  Layout.object depth [("cmd", Layout.quoted d.spelling), ("pos", Bytes.decimal d.position)]

def fields : List (Reader.Field CommandDocument) :=
  [{ name := "cmd", read := fun d => do return { d with spelling := ← Reader.text } },
   { name := "pos", read := fun d => do return { d with position := ← Reader.word } }]

def read : Reader CommandDocument := Reader.record fields {}

end CommandDocument

namespace TransactionDocument

open Json (Layout.object Layout.array Reader)

def ofTransaction (tx : Transaction) : TransactionDocument :=
  ⟨tx.length, tx.map CommandDocument.ofCommand⟩

/-- The transaction, which `place` counts from zero: first its size, then its commands. -/
def toTransaction (d : TransactionDocument) (place : Nat) : Except ParseError Transaction := do
  checkSize s!"transaction {place}" d.size d.commands.length
  d.commands.mapM CommandDocument.toCommand

def print (depth : Nat) (d : TransactionDocument) : Bytes :=
  Layout.object depth
    [("size", Bytes.decimal d.size),
     ("cmds", Layout.array (depth + 1) (d.commands.map (CommandDocument.print (depth + 2))))]

def fields : List (Reader.Field TransactionDocument) :=
  [{ name := "size", read := fun d => do return { d with size := ← Reader.word } },
   { name := "cmds"
     read := fun d => do return { d with commands := ← Reader.array CommandDocument.read } }]

def read : Reader TransactionDocument := Reader.record fields {}

end TransactionDocument

namespace WorkloadDocument

open Json (Layout.object Layout.array Reader)

def ofWorkload (workload : Workload) : WorkloadDocument :=
  ⟨workload.length, workload.map TransactionDocument.ofTransaction⟩

def toWorkload (d : WorkloadDocument) : Except ParseError Workload := do
  checkSize "workload" d.size d.transactions.length
  d.transactions.zipIdx.mapM fun (tx, place) => tx.toTransaction place

def print (depth : Nat) (d : WorkloadDocument) : Bytes :=
  Layout.object depth
    [("size", Bytes.decimal d.size),
     ("txs",
      Layout.array (depth + 1) (d.transactions.map (TransactionDocument.print (depth + 2))))]

def fields : List (Reader.Field WorkloadDocument) :=
  [{ name := "size", read := fun d => do return { d with size := ← Reader.word } },
   { name := "txs"
     read := fun d => do
       return { d with transactions := ← Reader.array TransactionDocument.read } }]

def read : Reader WorkloadDocument := Reader.record fields {}

end WorkloadDocument

namespace PoolDocument

open Json (Layout.object Layout.array Reader)

def ofPool (pool : Pool) : PoolDocument := ⟨pool.length, pool.map WorkloadDocument.ofWorkload⟩

def toPool (d : PoolDocument) : Except ParseError Pool := do
  checkSize "workload pool" d.size d.workloads.length
  d.workloads.mapM WorkloadDocument.toWorkload

def print (d : PoolDocument) : Bytes :=
  Layout.object 0
    [("size", Bytes.decimal d.size),
     ("workloads", Layout.array 1 (d.workloads.map (WorkloadDocument.print 2)))]

def fields : List (Reader.Field PoolDocument) :=
  [{ name := "size", read := fun d => do return { d with size := ← Reader.word } },
   { name := "workloads"
     read := fun d => do return { d with workloads := ← Reader.array WorkloadDocument.read } }]

def read : Reader PoolDocument := Reader.record fields {}

end PoolDocument

/-- Reads a document into its shape; a fault of the document is a parse error. -/
def readDocument {α : Type} (read : Json.Reader α) (bytes : Bytes) : Except ParseError α :=
  match Json.Reader.document read bytes with
  | .ok value => .ok value
  | .error fault => .error (.document fault)

namespace Workload

def print (workload : Workload) : Bytes := (WorkloadDocument.ofWorkload workload).print 0

def parse (bytes : Bytes) : Except ParseError Workload := do
  (← readDocument WorkloadDocument.read bytes).toWorkload

end Workload

namespace Pool

def print (pool : Pool) : Bytes := (PoolDocument.ofPool pool).print

def parse (bytes : Bytes) : Except ParseError Pool := do
  (← readDocument PoolDocument.read bytes).toPool

end Pool

end StoreBench
