/-!
# Double precision numbers

A `Double` is the 64-bit word of the IEEE 754 format binary64. Its value is read off the fields of
the word in exact integer arithmetic, and rounding a quotient of integers to the nearest double is
an integer computation too, so that nothing here depends on machine floating point.
-/

namespace BoundSql

/-- A number of the format binary64, as its word. -/
structure Double where
  bits : UInt64
  deriving DecidableEq, Repr

namespace Double

/-- Two to the number of bits of the fraction field. -/
def fractionLimit : Nat := Nat.pow 2 52

/-- The exponent field of infinities and NaNs. -/
def topExponent : Nat := 2047

/-- The smallest positive double is one over this number. -/
def unitDenominator : Nat := Nat.pow 2 1074

/-- The value of the sign bit. -/
def signBit : Nat := Nat.pow 2 63

/-- Whether the sign bit is set. -/
def isNegative (d : Double) : Bool := signBit ≤ d.bits.toNat

/-- The eleven bits of the exponent field. -/
def exponentField (d : Double) : Nat := d.bits.toNat / fractionLimit % (topExponent + 1)

/-- The lower 52 bits. -/
def fraction (d : Double) : Nat := d.bits.toNat % fractionLimit

/-- Whether the word stands for no number. -/
def isNaN (d : Double) : Bool := d.exponentField == topExponent && d.fraction != 0

/-- Whether the word stands for a number, infinities excluded. -/
def isFinite (d : Double) : Bool := d.exponentField != topExponent

/-- The integer `m` such that a finite double has the magnitude `m * 2 ^ scale / 2 ^ 1074`. -/
def significand (d : Double) : Nat :=
  if d.exponentField = 0 then d.fraction else fractionLimit + d.fraction

/-- The power of two that goes with `significand`. -/
def scale (d : Double) : Nat := d.exponentField - 1

/-- The word of positive infinity. -/
def infinityBits : Nat := topExponent * fractionLimit

/-- The double with the given sign whose other bits are `magnitude`; infinity if they are more. -/
def ofMagnitude (negative : Bool) (magnitude : Nat) : Double :=
  ⟨UInt64.ofNat (min magnitude infinityBits + if negative then signBit else 0)⟩

/-- A quiet NaN. -/
def nan : Double := ⟨UInt64.ofNat (infinityBits + fractionLimit / 2)⟩

/-- The infinity of the given sign. -/
def infinity (negative : Bool) : Double := ofMagnitude negative infinityBits

/-- The quotient rounded to the nearest integer, a tie to the even one. -/
def roundQuotient (num den : Nat) : Nat :=
  let q := num / den
  let twice := 2 * (num % den)
  if twice < den then q
  else if den < twice then q + 1
  else if q % 2 = 0 then q else q + 1

/-- The double nearest to `num / den`, a tie going to the even significand.

With `k` the place of the leading bit of the quotient in units of the smallest double, the
significand keeps 53 bits. Adding it to the scaled exponent field also gives the right word when
rounding carries into the next power of two. -/
def ofQuotient (negative : Bool) (num den : Nat) : Double :=
  let units := num * unitDenominator
  let width := if units / den = 0 then 0 else (units / den).log2 + 1
  let shift := width - 53
  ofMagnitude negative (shift * fractionLimit + roundQuotient units (den * Nat.pow 2 shift))

/-- The number of decimal digits of `n`; zero has one. -/
def digitCount (n : Nat) : Nat := (Nat.toDigits 10 n).length

/-- The double nearest to `digits * 10 ^ exponent`. A magnitude that is far out of range is settled
without computing the power. -/
def ofDecimal (negative : Bool) (digits : Nat) (exponent : Int) : Double :=
  let magnitude := exponent + digitCount digits
  if digits = 0 || magnitude < -330 then ofMagnitude negative 0
  else if 310 < magnitude then infinity negative
  else if 0 ≤ exponent then ofQuotient negative (digits * Nat.pow 10 exponent.toNat) 1
  else ofQuotient negative digits (Nat.pow 10 (-exponent).toNat)

/-- The double nearest to an integer. -/
def ofInt (n : Int) : Double := ofQuotient (n < 0) n.natAbs 1

/-- The magnitude of a finite double, counted in the smallest positive one. -/
def units (d : Double) : Nat := d.significand * Nat.pow 2 d.scale

/-- The double nearest to the product of two finite ones. -/
def mul (a b : Double) : Double :=
  ofQuotient (a.isNegative != b.isNegative) (a.units * b.units) (unitDenominator * unitDenominator)

/-- The double nearest to the quotient of two finite ones, the second of which is not zero. -/
def div (a b : Double) : Double := ofQuotient (a.isNegative != b.isNegative) a.units b.units

end Double

end BoundSql
