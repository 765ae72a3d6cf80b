import StoreBench.Binary64.Basic

/-! Doubles as decimal text: the fewest digits that read back, laid out by a style. The digits
and the layout are independent, and a style is one value that says all of the layout. -/
namespace StoreBench.Binary64

/-- Which of two equally near candidates is taken. -/
inductive Tie where
  | away
  | even
deriving DecidableEq, Repr

/-- `coefficient * 10 ^ exponent`. -/
structure Decimal where
  coefficient : Nat
  exponent : Int
deriving DecidableEq, Repr

/-- The decimals `c * 10 ^ exponent`, measured in units: the step is `num / den` units. -/
structure Grid where
  exponent : Int
  num : Nat
  den : Nat

def grid (exponent : Int) : Grid :=
  if 0 ≤ exponent then ⟨exponent, Nat.pow 10 exponent.toNat * one, 1⟩
  else ⟨exponent, one, Nat.pow 10 (-exponent).toNat⟩

/-- Whether the point `c` of a grid reads back as the double with these units: it lies between
the midpoints to the two neighbouring doubles. A midpoint itself counts if the last bit is even. -/
def readsBack (units : Nat) (g : Grid) (c : Nat) : Bool :=
  let step := twoPow (excess units)
  let mantissa := units / step
  let below := if mantissa = 0x10000000000000 ∧ 1 < step then step / 2 else step
  let low := (4 * units - 2 * below) * g.den
  let high := (4 * units + 2 * step) * g.den
  let point := 4 * c * g.num
  if mantissa % 2 = 0 then low ≤ point && point ≤ high else low < point && point < high

/-- The nearest point of a grid that reads back, if any. It is one of the two neighbours. -/
def candidate? (tie : Tie) (units : Nat) (g : Grid) : Option Decimal :=
  let lower := units * g.den / g.num
  let twice := 2 * units * g.den
  let middle := (2 * lower + 1) * g.num
  let upper := twice > middle || (twice == middle && (tie == .away || lower % 2 == 1))
  match readsBack units g lower && decide (0 < lower), readsBack units g (lower + 1) with
  | true, true => some ⟨if upper then lower + 1 else lower, g.exponent⟩
  | true, false => some ⟨lower, g.exponent⟩
  | false, true => some ⟨lower + 1, g.exponent⟩
  | false, false => none

/-- The decimal exponent of the leading digit of a positive number of units. -/
def leadingExponent (units : Nat) : Int :=
  if one ≤ units then (Nat.toDigits 10 (units / one)).length - 1
  else
    let zeros := (List.range 324).find? fun j => one ≤ units * Nat.pow 10 (j + 1)
    Int.negSucc (zeros.getD 323)

/-- The shortest decimal that reads back, and of the shortest ones the nearest. Grids are tried
from one digit on; seventeen digits always suffice. -/
def shortest (tie : Tie) (units : Nat) : Decimal :=
  let top := leadingExponent units
  let found := (List.range 17).findSome? fun (places : Nat) =>
    candidate? tie units (grid (top - places))
  found.getD ⟨units / one, 0⟩

/-- How a decimal is laid out. -/
structure Style where
  tie : Tie
  /-- Whether a number with this leading exponent is written without an exponent. -/
  positional : Int → Bool
  /-- Whether a whole number in positional form ends in `.0`. -/
  pointZero : Bool
  nan : String
  infinity : String
  negativeInfinity : String

/-- For reading: never an exponent, no idle point. -/
def plain : Style where
  tie := .away
  positional _ := true
  pointZero := false
  nan := "NaN"
  infinity := "inf"
  negativeInfinity := "-inf"

/-- For documents: exponents outside `10 ^ -5` to `10 ^ 16`, whole numbers with `.0`, and null
where the format has no number. -/
def document : Style where
  tie := .even
  positional e := -5 ≤ e && e < 16
  pointZero := true
  nan := "null"
  infinity := "null"
  negativeInfinity := "null"

/-- Digits without trailing zeros, with the exponent of the leading one. -/
def Decimal.leading (d : Decimal) : List Char × Int :=
  let digits := Nat.toDigits 10 d.coefficient
  let kept := (digits.reverse.dropWhile (· == '0')).reverse
  (if kept.isEmpty then ['0'] else kept, d.exponent + digits.length - 1)

/-- Digits with the point set by the exponent of the leading one. -/
def positionalText (pointZero : Bool) (digits : List Char) (top : Int) : List Char :=
  if top < 0 then '0' :: '.' :: (List.replicate (-top - 1).toNat '0' ++ digits)
  else
    let whole := top.toNat + 1
    if digits.length ≤ whole then
      digits ++ List.replicate (whole - digits.length) '0' ++ if pointZero then ['.', '0'] else []
    else digits.take whole ++ '.' :: digits.drop whole

/-- One digit before the point, and an exponent that always has a sign. -/
def exponentText (digits : List Char) (top : Int) : List Char :=
  let fraction := digits.drop 1
  digits.take 1 ++ (if fraction.isEmpty then [] else '.' :: fraction) ++
    'e' :: (if top < 0 then '-' else '+') :: Nat.toDigits 10 top.natAbs

def Style.text (style : Style) : Binary64 → String
  | .nan => style.nan
  | .infinite false => style.infinity
  | .infinite true => style.negativeInfinity
  | .finite negative units =>
    let (digits, top) :=
      if units = 0 then (['0'], 0) else (shortest style.tie units).leading
    let body :=
      if style.positional top then positionalText style.pointZero digits top
      else exponentText digits top
    String.ofList (if negative then '-' :: body else body)

end StoreBench.Binary64
