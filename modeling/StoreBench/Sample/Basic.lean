import StoreBench.Bytes
import StoreBench.Files.Fault

/-! Sample data: the ordered pairs that a benchmark draws from. Workloads refer to a pair by its
position, so the order is part of the data. -/
namespace StoreBench

structure Pair where
  key : Bytes
  value : Bytes
deriving DecidableEq, Repr

namespace Pair

/-- Bytes that a pair takes in a list, its key and value not counted. -/
def width : Nat := 32

/-- By key, then by value, both byte by byte. -/
def order (a b : Pair) : Ordering := (compare a.key b.key).then (compare a.value b.value)

/-- Whether `a` may stand before `b` in sorted data. -/
def sorted (a b : Pair) : Bool := a.order b != .gt

end Pair

/-- Pairs in file order. A key may occur more than once. -/
abbrev SampleSet := Array Pair

/-- Why sample data is refused. -/
inductive SampleError where
  | file (fault : FileFault)
  /-- A line, counted from one with empty lines included, that does not separate key and value. -/
  | missingDelimiter (line : Nat)
  /-- A pair whose written form would be read back differently. -/
  | delimiterInKey (index : Nat)
  | invalidKeySize (size : Nat)
deriving DecidableEq, Repr

def SampleError.message : SampleError → String
  | .file fault => fault.message
  | .missingDelimiter line => s!"missing delimiter (;) in line {line}"
  | .delimiterInKey index => s!"key of pair {index} contains the delimiter (;)"
  | .invalidKeySize size => s!"Invalid key size: {size}. Keys must not be empty"

end StoreBench
