import BoundSql.Json.Value
import BoundSql.Number.Reading
import BoundSql.Number.Scaling

/-!
# Numbers of JSON

A `Numeral` is a number as it is written. One without a point and an exponent is an integer if it
fits in a word of 64 bits; any other becomes a double, by one of two ways of rounding.
-/

namespace BoundSql.Json

/-- How a number that is no integer becomes a double. -/
inductive Rounding
  /-- The double nearest to the number. -/
  | nearest
  /-- As many of its digits as an unsigned 64-bit word holds, scaled by a power of ten. -/
  | scaled

/-- A number as it is written. -/
structure Numeral where
  negative : Bool
  /-- The digits before the point. -/
  whole : List Char
  /-- The digits behind the point, none if there is no point. -/
  decimals : List Char
  exponent : Option Int

namespace Numeral

/-- Reads the digits before the point: no zero stands in front of another digit. -/
def whole? (cs : List Char) : Option (List Char × List Char) :=
  match cs.span Char.isDigit with
  | ([], _) => none
  | ('0' :: _ :: _, _) => none
  | (digits, rest) => some (digits, rest)

/-- Reads a point and the digits behind it, or nothing if there is no point. -/
def decimals? : List Char → Option (List Char × List Char)
  | '.' :: cs =>
    match cs.span Char.isDigit with
    | ([], _) => none
    | (digits, rest) => some (digits, rest)
  | cs => some ([], cs)

/-- Reads an `e` and the exponent behind it, or nothing if there is no `e`. -/
def exponent? : List Char → Option (Option Int × List Char)
  | c :: cs =>
    if c != 'e' && c != 'E' then some (none, c :: cs)
    else
      let (negative, cs) := match cs with
        | '+' :: cs => (false, cs)
        | '-' :: cs => (true, cs)
        | cs => (false, cs)
      match cs.span Char.isDigit with
      | ([], _) => none
      | (digits, rest) =>
        some (some (if negative then -(digitsValue digits : Int) else digitsValue digits), rest)
  | [] => some (none, [])

/-- Reads a number from the beginning of a text. -/
def read? (cs : List Char) : Option (Numeral × List Char) := do
  let (negative, cs) := match cs with
    | '-' :: cs => (true, cs)
    | cs => (false, cs)
  let (whole, cs) ← whole? cs
  let (decimals, cs) ← decimals? cs
  let (exponent, cs) ← exponent? cs
  some (⟨negative, whole, decimals, exponent⟩, cs)

/-- The integer that a number without a point and an exponent stands for. A negative one fits in a
signed 64-bit word and another in an unsigned one; zero with a sign is none. -/
def integer? (x : Numeral) : Option Int :=
  let n := digitsValue x.whole
  if !x.decimals.isEmpty || x.exponent.isSome then none
  else if x.negative then if n != 0 && fitsSigned 64 (-n) then some (-n) else none
  else if fitsUnsigned 64 n then some n
  else none

/-- The double nearest to a number, if it is in the range of doubles. -/
def nearest? (x : Numeral) : Option Double :=
  let d := Double.ofDecimal x.negative (digitsValue (x.whole ++ x.decimals))
    (x.exponent.getD 0 - x.decimals.length)
  if d.isFinite then some d else none

/-- Puts digits behind the number `n` as long as it fits in an unsigned 64-bit word, and gives the
digits from the first that does not. -/
def gather (n : Nat) : List Char → Nat × List Char
  | [] => (n, [])
  | c :: cs =>
    let more := 10 * n + (c.toNat - '0'.toNat)
    if fitsUnsigned 64 more then gather more cs else (n, c :: cs)

/-- The double that comes of scaling the digits that an unsigned 64-bit word holds. Digits before
the point that find no place count as zeros; those behind it are passed over. -/
def scaled? (x : Numeral) : Option Double :=
  let (n, zeros) := gather 0 x.whole
  let (n, lost) := gather n x.decimals
  Double.scaled? x.negative n
    (x.exponent.getD 0 + zeros.length - (x.decimals.length - lost.length : Nat))

/-- The value of a number. -/
def value? (rounding : Rounding) (x : Numeral) : Option Json :=
  match x.integer? with
  | some n => some (int n)
  | none =>
    (match rounding with
      | .nearest => x.nearest?
      | .scaled => x.scaled?).map float

end Numeral

end BoundSql.Json
