import StoreBench.Fault
import StoreBench.Run.Error

/-! Where workers run. One logical CPU of each core is used before the numbering wraps around.
Pinning is advice: a worker that cannot be pinned runs where it is. -/
namespace StoreBench

/-- What the machine has to offer. -/
structure Host where
  /-- Logical CPUs found on the machine. -/
  logicalCpus : Nat := 1
  /-- Why a CPU is refused, if it is. -/
  refusal : Nat → Option String := fun _ => none

/-- CPUs that an affinity mask can name. -/
def affinityMask : Nat := 1024

namespace Host

/-- Asks for a CPU. A number that the mask cannot hold is never passed on. -/
def pin (host : Host) (cpu : Nat) : Except String Unit :=
  if affinityMask ≤ cpu then .error s!"cpu {cpu} exceeds the affinity mask"
  else match host.refusal cpu with
    | some reason => .error reason
    | none => .ok ()

end Host

structure CpuLayout where
  offset : Nat := 0
  /-- Logical CPUs of one core. -/
  smtRatio : Nat := 2
  /-- Used in place of the number found on the machine. -/
  logicalCpus : Option Nat := none
  pin : Bool := true
deriving DecidableEq, Repr

namespace CpuLayout

def validate (layout : CpuLayout) : Except ConfigError Unit :=
  if layout.smtRatio = 0 then .error .invalidSmtRatio else .ok ()

/-- Cores to spread over, at least one. -/
def physicalCpus (layout : CpuLayout) (host : Host) : Nat :=
  max 1 (layout.logicalCpus.getD host.logicalCpus / max 1 layout.smtRatio)

/-- The CPU of a worker. -/
def cpuFor (layout : CpuLayout) (host : Host) (worker : Nat) : Except Fault Nat :=
  addWords layout.offset (worker % layout.physicalCpus host)

end CpuLayout

/-- A worker that could not be pinned. -/
structure PinWarning where
  worker : Nat
  cpu : Nat
  reason : String
deriving DecidableEq, Repr

def PinWarning.message (w : PinWarning) : String :=
  s!"worker {w.worker}: could not pin to cpu {w.cpu}: {w.reason}"

/-- Where a worker ended up: the CPU it is pinned to, or why it is pinned to none. -/
structure Placement where
  cpu : Option Nat := none
  warning : Option PinWarning := none
deriving DecidableEq, Repr

namespace CpuLayout

def place (layout : CpuLayout) (host : Host) (worker : Nat) : Except Fault Placement :=
  if layout.pin then
    match layout.cpuFor host worker with
    | .error fault => .error fault
    | .ok cpu =>
      match host.pin cpu with
      | .ok () => .ok { cpu := some cpu }
      | .error reason => .ok { warning := some { worker, cpu, reason } }
  else .ok {}

end CpuLayout

end StoreBench
