import BoundSql.Number.Double

/-!
# The shortest decimal that reads back

A finite double is written with the fewest significant digits whose value rounds back to it, and of
those with the digits nearest to it; an exact tie goes to the larger magnitude. The digits are
always set out positionally, never with an exponent, and a whole number has no decimal point.
-/

namespace BoundSql.Double

/-- A positive number `value / unit` and the open or closed interval of numbers that round to it,
all over the one denominator `unit`. -/
structure Rounding where
  value : Nat
  low : Nat
  high : Nat
  unit : Nat
  /-- Whether the end points round to the number too. -/
  closed : Bool

/-- The numbers that round to a finite nonzero double. Below a power of two the neighbour is only
half as far away. -/
def rounding (d : Double) : Rounding :=
  let step := Nat.pow 2 d.scale
  let below := if d.significand = fractionLimit && 0 < d.scale then step else 2 * step
  { value := 4 * d.significand * step
    low := 4 * d.significand * step - below
    high := 4 * d.significand * step + 2 * step
    unit := 4 * unitDenominator
    closed := d.significand % 2 = 0 }

namespace Rounding

/-- Whether `n / unit` lies in the interval. -/
def holds (r : Rounding) (n : Nat) : Bool :=
  if r.closed then r.low ≤ n && n ≤ r.high else r.low < n && n < r.high

/-- The interval with all numbers multiplied by `n`. -/
def times (r : Rounding) (n : Nat) : Rounding :=
  { r with value := r.value * n, low := r.low * n, high := r.high * n }

/-- The multiple of `grid / unit` that stands for the value, if a neighbouring one lies in the
interval: the nearer of the two, the upper one on a tie. -/
def nearest? (r : Rounding) (grid : Nat) : Option Nat :=
  let lower := r.value / grid
  let low := r.holds (lower * grid)
  let high := r.holds ((lower + 1) * grid)
  if low && high then
    some (if 2 * (r.value % grid) < grid then lower else lower + 1)
  else if high then some (lower + 1)
  else if low then some lower
  else none

/-- How often a number below one must be multiplied by ten until it is at least a tenth. -/
def leadingZeros (value unit : Nat) : Nat → Nat
  | 0 => 0
  | fuel + 1 => if unit ≤ value * 10 then 0 else leadingZeros (value * 10) unit fuel + 1

/-- The exponent `k` with `10 ^ (k - 1) ≤ value < 10 ^ k`. Doubles need at most 323 zeros. -/
def magnitude (r : Rounding) : Int :=
  if r.unit ≤ r.value then digitCount (r.value / r.unit)
  else -(leadingZeros r.value r.unit 330 : Nat)

/-- The interval and the grid for decimals with exponent `k`. -/
def onGrid (r : Rounding) (k : Int) : Option Nat :=
  if 0 ≤ k then r.nearest? (Nat.pow 10 k.toNat * r.unit)
  else (r.times (Nat.pow 10 (-k).toNat)).nearest? r.unit

/-- The digits, as a number, and the exponent of the shortest decimal in the interval, trying one
digit more each time. Seventeen digits always suffice. -/
def shortest (r : Rounding) : Nat × Int :=
  go r.magnitude 1 17
where
  go (magnitude : Int) (count : Nat) : Nat → Nat × Int
    | 0 => (0, 0)
    | fuel + 1 =>
      match r.onGrid (magnitude - count) with
      | some digits => (digits, magnitude - count)
      | none => go magnitude (count + 1) fuel

end Rounding

/-- `digits * 10 ^ exponent` written out without an exponent. -/
def positional (digits : Nat) (exponent : Int) : String :=
  let text := Nat.toDigits 10 digits
  if 0 ≤ exponent then String.ofList (text ++ List.replicate exponent.toNat '0')
  else
    let places := (-exponent).toNat
    let padded := List.replicate (places + 1 - text.length) '0' ++ text
    let whole := padded.length - places
    let decimals := ((padded.drop whole).reverse.dropWhile (· == '0')).reverse
    if decimals.isEmpty then String.ofList (padded.take whole)
    else String.ofList (padded.take whole ++ '.' :: decimals)

/-- The text of a double: its shortest digits, or `NaN`, `inf`, `-inf`. Zero keeps its sign. -/
def toText (d : Double) : String :=
  if d.isNaN then "NaN"
  else
    let body :=
      if !d.isFinite then "inf"
      else if d.significand = 0 then "0"
      else
        let (digits, exponent) := d.rounding.shortest
        positional digits exponent
    if d.isNegative then "-" ++ body else body

end BoundSql.Double
