import StoreBench.Sample.Basic

/-! Sample data as lines of text, `KEY;VALUE`. A line ends at a newline or at the end of the
document. The key ends at the first delimiter, so a value may contain the delimiter and a key may
not. -/
namespace StoreBench

def newline : UInt8 := 10

/-- The semicolon. -/
def delimiter : UInt8 := 59

/-- A byte in front of lines: a newline opens an empty line, any other byte joins the first. -/
def consByte (b : UInt8) (lines : List Bytes) : List Bytes :=
  if b = newline then [] :: lines
  else
    match lines with
    | [] => [[b]]
    | line :: more => (b :: line) :: more

/-- The lines of a document, without their newlines. -/
def lines (document : Bytes) : List Bytes := document.foldr consByte []

namespace Pair

/-- Cuts a line at its first delimiter. -/
def ofLine? (line : Bytes) : Option Pair :=
  match line.dropWhile (· != delimiter) with
  | [] => none
  | _ :: value => some ⟨line.takeWhile (· != delimiter), value⟩

/-- The written form of a pair. -/
def line (p : Pair) : Bytes := p.key ++ delimiter :: p.value ++ [newline]

end Pair

namespace SampleSet

/-- What one numbered line contributes. Empty lines contribute nothing. -/
def readLine (line : Bytes) (number : Nat) : Except SampleError (Option Pair) :=
  if line.isEmpty then .ok none
  else
    match Pair.ofLine? line with
    | some pair => .ok (some pair)
    | none => .error (.missingDelimiter number)

/-- The pairs of a document, or its first line that is none. -/
def parse (document : Bytes) : Except SampleError SampleSet := do
  let read ← ((lines document).zipIdx 1).mapM fun (line, number) => readLine line number
  return (read.filterMap id).toArray

/-- Writes pairs, the first of which has number `index`, behind the lines that are `done` already,
newest first. The first key with a delimiter in it ends that. -/
def printFrom (index : Nat) (done : List Bytes) : List Pair → Bytes × Except SampleError Unit
  | [] => (done.reverse.flatten, .ok ())
  | pair :: rest =>
    if pair.key.contains delimiter then (done.reverse.flatten, .error (.delimiterInKey index))
    else printFrom (index + 1) (pair.line :: done) rest

/-- The lines that are written, and what stopped that. -/
def print (samples : SampleSet) : Bytes × Except SampleError Unit := printFrom 0 [] samples.toList

end SampleSet

end StoreBench
