import StoreBench.Binary64.Decimal
import StoreBench.Fault
import StoreBench.Json.Layout

/-! Lengths of time. A duration is a whole number of nanoseconds whose seconds fit a 64-bit word;
an instant is the number of nanoseconds since an origin that all instants of a run share. -/
namespace StoreBench

/-- Nanoseconds. -/
abbrev Duration := Nat

abbrev Instant := Nat

namespace Duration

def perSecond : Nat := 1000000000

/-- The longest duration. -/
def longest : Duration := (wordMax + 1) * perSecond - 1

/-- Nanoseconds beyond a full second are carried into the seconds. -/
def ofParts (seconds nanos : Nat) : Except Fault Duration :=
  let d := seconds * perSecond + nanos
  if d ≤ longest then .ok d else .error .overflow

def seconds (d : Duration) : Nat := d / perSecond

/-- The nanoseconds beyond the last full second. -/
def nanos (d : Duration) : Nat := d % perSecond

def add (a b : Duration) : Except Fault Duration :=
  if a + b ≤ longest then .ok (a + b) else .error .overflow

/-- The sum of a list, from the left. -/
def sum (list : List Duration) : Except Fault Duration := list.foldlM add 0

/-- An equal share, rounded down. -/
def share (d : Duration) (parts : Nat) : Except Fault Duration :=
  if parts = 0 then .error .divisionByZero else .ok (d / parts)

/-- From one instant to another, or nothing if the second comes first. -/
def between (start finish : Instant) : Duration := finish - start

end Duration

inductive TimeUnit where
  | s
  | ms
  | us
  | ns
deriving DecidableEq, Repr

namespace TimeUnit

def spelling : TimeUnit → String
  | .s => "s"
  | .ms => "ms"
  | .us => "us"
  | .ns => "ns"

def ofSpelling? : String → Option TimeUnit
  | "s" => some .s
  | "ms" => some .ms
  | "us" => some .us
  | "ns" => some .ns
  | _ => none

/-- Nanoseconds in one unit. -/
def nanos : TimeUnit → Nat
  | .s => 1000000000
  | .ms => 1000000
  | .us => 1000
  | .ns => 1

/-- A duration in this unit. The nanoseconds become a double before they are divided. -/
def convert (unit : TimeUnit) (d : Duration) : Binary64 :=
  (Binary64.ofNat d).div (Binary64.ofNat unit.nanos)

/-- A duration in this unit, as text. -/
def text (unit : TimeUnit) (d : Duration) : String := Binary64.plain.text (unit.convert d)

/-- The unit in a document. -/
def document (unit : TimeUnit) : Bytes := Json.Layout.quoted unit.spelling

end TimeUnit

end StoreBench
