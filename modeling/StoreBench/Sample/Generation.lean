import StoreBench.Collect
import StoreBench.Fault
import StoreBench.Random.Draw
import StoreBench.Sample.Basic

/-! Random sample data of a fixed shape. All letters come from one stream, key before value and
pair after pair, so fewer pairs of the same shape and seed are the beginning of more. -/
namespace StoreBench

/-- The sizes of generated pairs and their number. -/
structure SampleShape where
  keySize : Nat := 16
  valueSize : Nat := 64
  pairs : Nat := 1000
deriving DecidableEq, Repr

namespace SampleShape

def alphabet : Array UInt8 := (Bytes.ofText "abcdefghijklmnopqrstuvwxyz0123456789").toArray

def letter : Draw UInt8 := do
  let i ← Draw.position alphabet.size
  pure (alphabet.getD i 0)

def text (size : Nat) : Draw Bytes := collect (fun _ => letter) size

def pair (shape : SampleShape) : Draw Pair := do
  let key ← text shape.keySize
  let value ← text shape.valueSize
  pure ⟨key, value⟩

/-- Makes room for the pairs, and for the texts of each. -/
def reserve (shape : SampleShape) : Except Fault Unit := do
  StoreBench.reserve shape.pairs Pair.width
  if shape.pairs ≠ 0 then
    StoreBench.reserve shape.keySize 1
    StoreBench.reserve shape.valueSize 1

/-- Keys must not be empty; values may be. -/
def validate (shape : SampleShape) : Except SampleError Unit :=
  if shape.keySize = 0 then .error (.invalidKeySize shape.keySize) else .ok ()

/-- The pairs that are drawn from a stream. -/
def make (shape : SampleShape) (stream : WordStream) : Except Fault SampleSet := do
  shape.reserve
  let pairs : Draw (List Pair) := collect (fun _ => shape.pair) shape.pairs
  return (pairs.run stream).1.toArray

/-- The pairs of a seed. -/
def generate (shape : SampleShape) (seed : UInt64) : Except (Failure SampleError) SampleSet := do
  Failure.ofError shape.validate
  Failure.ofFault (shape.make (WordStream.ofSeed seed))

end SampleShape

end StoreBench
