/-! Doubles as exact multiples of `2 ^ -1074`. Every finite double is such a multiple, so sums,
differences and comparisons are those of natural numbers, followed by one rounding. Nothing here
depends on the machine's floating point unit. -/
namespace StoreBench

/-- `finite negative units` stands for `units * 2 ^ -1074`, with a sign that zero keeps too. -/
inductive Binary64 where
  | nan
  | infinite (negative : Bool)
  | finite (negative : Bool) (units : Nat)
deriving DecidableEq, Repr

namespace Binary64

def twoPow (exponent : Nat) : Nat := Nat.pow 2 exponent

/-- Bits behind the binary point of a finite double. -/
def fractionBits : Nat := 1074

/-- Bits before the binary point of a finite double. -/
def wholeBits : Nat := 1024

/-- Units in the number one. -/
def one : Nat := twoPow fractionBits

/-- The first number of units that no finite double reaches. -/
def limit : Nat := twoPow (wholeBits + fractionBits)

/-- Bits of a number beyond the 53 that a double keeps. -/
def excess (n : Nat) : Nat := n.log2 + 1 - 53

/-- The whole number nearest to a quotient. A half goes to the even neighbour. -/
def nearest (num den : Nat) : Nat :=
  let quotient := num / den
  let rest := num % den
  if 2 * rest < den || (2 * rest == den && quotient % 2 == 0) then quotient else quotient + 1

/-- A quotient rounded to a number with at most 53 significant bits. -/
def significant (num den : Nat) : Nat :=
  let step := twoPow (excess (num / den))
  nearest num (den * step) * step

/-- The double nearest to `num / den` units. -/
def ofUnits (negative : Bool) (num den : Nat) : Binary64 :=
  let units := significant num den
  if units < limit then .finite negative units else .infinite negative

/-- The double nearest to a ratio. -/
def ofRatio (negative : Bool) (num den : Nat) : Binary64 := ofUnits negative (num * one) den

def ofNat (n : Nat) : Binary64 := ofRatio false n 1

/-- The sum of no weights: adding it changes nothing, not even a negative zero. -/
def negativeZero : Binary64 := .finite true 0

/-- The double nearest to `digits * 10 ^ exponent`. Magnitudes far outside the range are settled
by the exponent and the number of bits, so no power is much larger than the digits. -/
def ofDecimal (negative : Bool) (digits : Nat) (exponent : Int) : Binary64 :=
  if digits = 0 ∨ exponent + digits.log2 < -400 then .finite negative 0
  else if 400 < exponent then .infinite negative
  else if 0 ≤ exponent then ofRatio negative (digits * Nat.pow 10 exponent.toNat) 1
  else ofRatio negative digits (Nat.pow 10 (-exponent).toNat)

def neg : Binary64 → Binary64
  | .nan => .nan
  | .infinite negative => .infinite !negative
  | .finite negative units => .finite (!negative) units

/-- The exact sum, rounded once. Opposite numbers of one size cancel to positive zero. -/
def add : Binary64 → Binary64 → Binary64
  | .nan, _ => .nan
  | _, .nan => .nan
  | .infinite a, .infinite b => if a = b then .infinite a else .nan
  | .infinite a, .finite _ _ => .infinite a
  | .finite _ _, .infinite b => .infinite b
  | .finite a m, .finite b n =>
    if a = b then ofUnits a (m + n) 1
    else if m = n then .finite false 0
    else if n < m then ofUnits a (m - n) 1
    else ofUnits b (n - m) 1

def sub (x y : Binary64) : Binary64 := x.add y.neg

/-- The exact product, rounded once. -/
def mul : Binary64 → Binary64 → Binary64
  | .nan, _ => .nan
  | _, .nan => .nan
  | .infinite a, .infinite b => .infinite (a != b)
  | .infinite a, .finite b n => if n = 0 then .nan else .infinite (a != b)
  | .finite a m, .infinite b => if m = 0 then .nan else .infinite (a != b)
  | .finite a m, .finite b n => ofUnits (a != b) (m * n) one

/-- The exact quotient, rounded once. -/
def div : Binary64 → Binary64 → Binary64
  | .nan, _ => .nan
  | _, .nan => .nan
  | .infinite _, .infinite _ => .nan
  | .infinite a, .finite b _ => .infinite (a != b)
  | .finite a _, .infinite b => .finite (a != b) 0
  | .finite a m, .finite b n =>
    if n = 0 then (if m = 0 then .nan else .infinite (a != b)) else ofRatio (a != b) m n

/-- The signed number of units. Both zeros have the value zero. -/
def signed (negative : Bool) (units : Nat) : Int := if negative then -(units : Int) else units

/-- Nothing is below NaN, and NaN is below nothing. -/
def less : Binary64 → Binary64 → Bool
  | .nan, _ => false
  | _, .nan => false
  | .infinite a, .infinite b => a && !b
  | .infinite a, .finite _ _ => a
  | .finite _ _, .infinite b => !b
  | .finite a m, .finite b n => decide (signed a m < signed b n)

/-- At most; false as soon as one side is NaN. -/
def atMost : Binary64 → Binary64 → Bool
  | .nan, _ => false
  | _, .nan => false
  | .infinite a, .infinite b => a || !b
  | .infinite a, .finite _ _ => a
  | .finite _ _, .infinite b => !b
  | .finite a m, .finite b n => decide (signed a m ≤ signed b n)

def isZero : Binary64 → Bool
  | .finite _ units => units == 0
  | _ => false

/-- The exponent of the largest power of ten in the range of the doubles. -/
def largestPower : Nat := 308

/-- The double nearest to a power of ten. -/
def powerOfTen (exponent : Nat) : Binary64 := ofDecimal false 1 exponent

/-- Divides by the largest power of ten, so many times or until nothing is left. -/
def shrink (x : Binary64) : (rounds : Nat) → Binary64
  | 0 => x
  | rounds + 1 => if x.isZero then x else shrink (x.div (powerOfTen largestPower)) rounds

/-- A double that is not negative, times a power of ten. There is one multiplication, or as many
divisions as it takes, and each of them is rounded. -/
def scale (x : Binary64) (exponent : Int) : Binary64 :=
  if 0 ≤ exponent then
    if exponent ≤ largestPower then x.mul (powerOfTen exponent.toNat)
    else if x.isZero then x
    else .infinite false
  else
    let places := exponent.natAbs
    let rounds := (places - 1) / largestPower
    (x.shrink rounds).div (powerOfTen (places - rounds * largestPower))

/-- Weights are summed from the left, starting at negative zero. -/
def sum (weights : List Binary64) : Binary64 := weights.foldl add negativeZero

/-- The interchange encoding: a sign bit, eleven exponent bits, 52 fraction bits. -/
def encode : Binary64 → Nat
  | .nan => 0x7ff8000000000000
  | .infinite negative => sign negative + 0x7ff0000000000000
  | .finite negative units =>
    if units < 0x10000000000000 then sign negative + units
    else
      sign negative + excess units * 0x10000000000000 + units / twoPow (excess units)
where
  sign (negative : Bool) : Nat := if negative then 0x8000000000000000 else 0

end Binary64

end StoreBench
