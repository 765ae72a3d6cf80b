import StoreBench.Fault

/-! Workloads: transactions over positions of the sample data. They are generated or loaded once
and then only replayed. -/
namespace StoreBench

inductive Operation where
  | get
  | put
deriving DecidableEq, Repr

namespace Operation

/-- The spelling in documents and on the command line. -/
def spelling : Operation → String
  | .get => "get"
  | .put => "put"

/-- The name in messages. -/
def display : Operation → String
  | .get => "Get"
  | .put => "Put"

def ofSpelling? : String → Option Operation
  | "get" => some .get
  | "put" => some .put
  | _ => none

theorem ofSpelling?_spelling (op : Operation) : ofSpelling? op.spelling = some op := by
  cases op <;> rfl

end Operation

/-- One step of a transaction: an operation on the pair at a position of the sample data. -/
structure Command where
  operation : Operation
  index : Nat
deriving DecidableEq, Repr

/-- Bytes that a command takes in a list. -/
def Command.width : Nat := 16

/-- Commands in execution order, replayed as one atomic unit. -/
abbrev Transaction := List Command

/-- Bytes that a transaction takes in a list, its commands not counted. -/
def Transaction.width : Nat := 24

abbrev Workload := List Transaction

/-- One workload for each worker. -/
abbrev Pool := List Workload

def Workload.commandCount (workload : Workload) : Nat := workload.flatten.length

end StoreBench
