import BoundSql.Number.Double

/-!
# Scaling by powers of ten

A decimal can become a double in steps: its digits are rounded to a double, and that is multiplied
or divided by a double which is a power of ten or nearest to one. Each step rounds, so that the
last place may differ from the double nearest to the decimal.
-/

namespace BoundSql.Double

/-- The exponent of the greatest power of ten in the range of doubles. -/
def topPower : Nat := 308

/-- The double nearest to `10 ^ n`. -/
def powerOfTen (n : Nat) : Double := ofDecimal false 1 n

/-- A finite double divided by `10 ^ n`. Beyond the greatest power the division is done by that power
and then by what is left, unless there is nothing left to divide. -/
def divideByTens (d : Double) (n : Nat) : Double :=
  if n ≤ topPower then d.div (powerOfTen n)
  else if d.units = 0 then d
  else divideByTens (d.div (powerOfTen topPower)) (n - topPower)
termination_by n
decreasing_by exact Nat.sub_lt (by omega) (by decide)

/-- The decimal `digits * 10 ^ exponent` in steps, unless it is out of the range of doubles. -/
def scaled? (negative : Bool) (digits : Nat) (exponent : Int) : Option Double :=
  let d := ofQuotient negative digits 1
  if digits = 0 then some d
  else if exponent < 0 then some (d.divideByTens exponent.natAbs)
  else if topPower < exponent then none
  else
    let x := d.mul (powerOfTen exponent.toNat)
    if x.isFinite then some x else none

end BoundSql.Double
