import StoreBench.Files.Tree
import StoreBench.Random.WordStream
import StoreBench.Run.Clock
import StoreBench.Run.Placement

/-! The machine that commands run on: files, random streams, processors, a stopwatch and a log.
Commands are written for any machine. The one defined here is a value, and so are its times. -/
namespace StoreBench

class Machine (m : Type → Type) where
  readFile : (path : String) → m (Except ReadFault Bytes)
  /-- Makes the directories that a path lies in. -/
  makeParents : (path : String) → m (Except FileFault Unit)
  writeFile : (path : String) → Bytes → m (Except FileFault Unit)
  /-- A random stream for those who gave no seed. Each one has a key of its own. -/
  freshStream : m WordStream
  host : m Host
  stopwatch : Stopwatch m
  warn : String → m Unit

/-- A machine as a value. -/
structure World where
  files : FileTree := {}
  host : Host := {}
  /-- The random streams, in the order in which they are handed out. -/
  entropy : Nat → WordStream := fun place => .ofSeed place.toUInt64
  /-- The number of streams that have been handed out. -/
  taken : Nat := 0
  /-- What the stopwatch tells of each step. -/
  windows : Nat → Window := fun _ => {}
  /-- Warnings, newest first. -/
  log : List String := []

namespace World

def time {α : Type} (step : Nat) (compute : Unit → α) : StateM World (α × Window) := fun world =>
  ((compute (), world.windows step), world)

instance : Machine (StateM World) where
  readFile path := fun world => (world.files.read (.ofText path), world)
  makeParents path := fun world =>
    let (result, files) := world.files.makeParents (.ofText path)
    (result, { world with files })
  writeFile path content := fun world =>
    match world.files.write (.ofText path) content with
    | .ok files => (.ok (), { world with files })
    | .error fault => (.error fault, world)
  freshStream := fun world =>
    (world.entropy world.taken, { world with taken := world.taken + 1 })
  host := fun world => (world.host, world)
  stopwatch := ⟨time⟩
  warn text := fun world => ((), { world with log := text :: world.log })

end World

end StoreBench
