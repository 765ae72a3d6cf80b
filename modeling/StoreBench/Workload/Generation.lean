import StoreBench.Collect
import StoreBench.Profile.Basic
import StoreBench.Random.Draw

/-! Generating workloads from a profile table. Two random streams are kept apart: one chooses
profiles, operations and positions, the other transaction lengths, so that lengths do not depend
on what is chosen. A generator carries on where it stopped, after a failure too. -/
namespace StoreBench

structure GenerationConfig where
  transactions : Nat := 1
  lengthMin : Nat := 2
  lengthMax : Nat := 64
  /-- Prefer a profile's own length bounds where they are usable. -/
  profileLengths : Bool := false
deriving DecidableEq, Repr

inductive GenerateError where
  | noMatchingProfile (draw : Nat)
  | noMatchingOperation (profile : String) (draw : Nat)
  | emptySampleSet
  | invalidLengthBounds (min max : Nat)
deriving DecidableEq, Repr

def GenerateError.message : GenerateError → String
  | .noMatchingProfile draw => s!"no tx profile for draw {draw}"
  | .noMatchingOperation profile draw => s!"no tx opcode in profile '{profile}' for draw {draw}"
  | .emptySampleSet => "cannot draw sample indices from an empty sample set"
  | .invalidLengthBounds min max => s!"invalid transaction length bounds [{min}, {max}]"

/-- The distance between seeds: from a worker to the next by addition, from the stream of choices
to the stream of lengths by exclusive or. -/
def seedStep : UInt64 := 0x9E3779B97F4A7C15

/-- The seed of one worker of a run. -/
def deriveSeed (seed worker : UInt64) : UInt64 := seed + (worker + 1) * seedStep

/-- What a finished transaction was made from. -/
structure GenerationNote where
  place : Nat
  profile : String
  length : Nat
deriving DecidableEq, Repr

def GenerationNote.message (note : GenerationNote) : String :=
  s!"tx {note.place}: profile '{note.profile}', length {note.length}"

/-- The state of a generator: its two streams, and its notes, newest first. -/
structure Generator where
  choices : WordStream
  lengths : WordStream
  notes : List GenerationNote := []
deriving DecidableEq, Repr

namespace Generator

def ofSeed (seed : UInt64) : Generator where
  choices := WordStream.ofSeed seed
  lengths := WordStream.ofSeed (seed ^^^ seedStep)

end Generator

abbrev Generation := ExceptT (Failure GenerateError) (StateM Generator)

namespace Generation

def choose {α : Type} (draw : Draw α) : Generation α := fun generator =>
  let (result, choices) := draw.run generator.choices
  (.ok result, { generator with choices })

def chooseLength (draw : Draw Nat) : Generation Nat := fun generator =>
  let (result, lengths) := draw.run generator.lengths
  (.ok result, { generator with lengths })

/-- Asks for room, and leaves the streams alone. -/
def reserve (count width : Nat) : Generation Unit := fun generator =>
  (Failure.ofFault (StoreBench.reserve count width), generator)

def note (entry : GenerationNote) : Generation Unit := fun generator =>
  (.ok (), { generator with notes := entry :: generator.notes })

/-- The bounds that hold for a transaction of this profile. -/
def lengthBounds (config : GenerationConfig) (profile : Profile) : Nat × Nat :=
  match profile.lengthBounds? with
  | some bounds => if config.profileLengths then bounds else (config.lengthMin, config.lengthMax)
  | none => (config.lengthMin, config.lengthMax)

/-- A command: the operation first, and then the position among `samples` pairs. -/
def command (samples : Nat) (profile : Profile) : Generation Command := do
  let draw ← choose (Draw.oneTo selectionRange)
  let some operation := profile.selectOperation draw
    | throw (.error (.noMatchingOperation profile.name draw))
  if samples = 0 then throw (.error .emptySampleSet)
  let index ← choose (Draw.position samples)
  return { operation, index }

def transaction (table : ProfileTable) (config : GenerationConfig) (samples place : Nat) :
    Generation Transaction := do
  let draw ← choose (Draw.oneTo selectionRange)
  let some profile := table.select draw | throw (.error (.noMatchingProfile draw))
  let bounds := lengthBounds config profile
  let length ← chooseLength (Draw.between bounds.1 bounds.2)
  reserve length Command.width
  let commands ← collect (fun _ => command samples profile) length
  note { place, profile := profile.name, length }
  return commands

def workload (table : ProfileTable) (config : GenerationConfig) (samples : Nat) :
    Generation Workload := do
  if config.lengthMin < 1 ∨ config.lengthMax < config.lengthMin then
    throw (.error (.invalidLengthBounds config.lengthMin config.lengthMax))
  reserve config.transactions Transaction.width
  collect (transaction table config samples) config.transactions

end Generation

namespace Workload

/-- The next workload of a generator. -/
def generateFrom (table : ProfileTable) (config : GenerationConfig) (samples : Nat)
    (generator : Generator) : Except (Failure GenerateError) Workload :=
  ((Generation.workload table config samples).run.run generator).1

/-- The workload of a fresh generator. -/
def generate (table : ProfileTable) (config : GenerationConfig) (samples : Nat) (seed : UInt64) :
    Except (Failure GenerateError) Workload :=
  generateFrom table config samples (Generator.ofSeed seed)

end Workload

namespace Pool

/-- One workload for each worker, from generators of their own. The first failure counts. -/
def generate (table : ProfileTable) (config : GenerationConfig) (samples : Nat) (seed : UInt64)
    (workers : Nat) : Except (Failure GenerateError) Pool :=
  collect (fun worker => Workload.generate table config samples (deriveSeed seed worker.toUInt64))
    workers

end Pool

end StoreBench
