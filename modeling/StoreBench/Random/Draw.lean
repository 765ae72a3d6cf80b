import StoreBench.Random.WordStream
import StoreBench.Word

/-! Uniform draws by widening multiplication. A random word times the number of choices has the
choice in its high half; words whose low half lies in the last, incomplete part are refused, so
every choice is equally likely. -/
namespace StoreBench

/-- A computation that reads from one stream. -/
abbrev Draw := StateM WordStream

namespace Draw

/-- Refusals after which a draw settles for the word at hand. A word is refused with probability
at most one half, so this bound exists for termination alone. -/
def patience : Nat := 4096

/-- The first accepted word. -/
def accepted (word : Draw Nat) (accepts : Nat → Bool) : (refusals : Nat) → Draw Nat
  | 0 => word
  | refusals + 1 => do
    let w ← word
    if accepts w then pure w else accepted word accepts refusals

def word32 : Draw Nat := fun stream =>
  let (w, stream) := stream.next32
  (w.toNat, stream)

def word64 : Draw Nat := fun stream =>
  let (w, stream) := stream.next64
  (w.toNat, stream)

/-- A number below `count`, drawn from words below `words`. The products refused are the last
`words % count` ones. -/
def below (words : Nat) (word : Draw Nat) (count : Nat) : Draw Nat := do
  let refused := (words - count) % count
  let w ← accepted word (fun w => w * count % words < words - refused) patience
  pure (w * count / words)

/-- A position below `count`. -/
def position (count : Nat) : Draw Nat := below (wordMax + 1) word64 count

/-- A number from 1 to `range`, drawn from 32-bit words. -/
def oneTo (range : Nat) : Draw Nat := do
  return 1 + (← below (halfWordMax + 1) word32 range)

/-- A number from `low` to `high`, both included. The number of choices is shifted up to the top
of the word to bound the accepted products, which refuses more than needed but costs no division.
A single choice still consumes a word. -/
def between (low high : Nat) : Draw Nat := do
  let count := high - low + 1
  let zone := count * Nat.pow 2 (63 - count.log2)
  let w ← accepted word64 (fun w => w * count % (wordMax + 1) < zone) patience
  pure (low + w * count / (wordMax + 1))

end Draw

end StoreBench
