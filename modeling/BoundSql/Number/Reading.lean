import BoundSql.Number.Double
import BoundSql.Number.Width
import BoundSql.Text.Basic

/-!
# Numbers from decimal text

`Decimal.read?` reads the notation with an optional fraction and exponent; from it come the nearest
double, and integers of a fixed width.
-/

namespace BoundSql

/-- The value of a row of decimal digits. -/
def digitsValue (cs : List Char) : Nat :=
  cs.foldl (fun n c => 10 * n + (c.toNat - '0'.toNat)) 0

/-- An unsigned decimal: `digits * 10 ^ exponent`. -/
structure Decimal where
  digits : Nat
  exponent : Int

namespace Decimal

/-- The exponent part of a number, `e` with an optional sign and at least one digit. -/
def exponent? : List Char → Option Int
  | [] => some 0
  | c :: cs =>
    if c != 'e' && c != 'E' then none
    else
      let (negative, ds) := match cs with
        | '-' :: rest => (true, rest)
        | '+' :: rest => (false, rest)
        | rest => (false, rest)
      if ds.isEmpty || !ds.all Char.isDigit then none
      else some (if negative then -(digitsValue ds : Int) else digitsValue ds)

/-- Reads digits with an optional point and an optional exponent; a digit must stand on one side of
the point. -/
def read? (cs : List Char) : Option Decimal :=
  let (whole, rest) := cs.span Char.isDigit
  let (decimals, rest) := match rest with
    | '.' :: rest => rest.span Char.isDigit
    | rest => ([], rest)
  if whole.isEmpty && decimals.isEmpty then none
  else (exponent? rest).map fun e =>
    ⟨digitsValue (whole ++ decimals), e - decimals.length⟩

end Decimal

namespace Double

/-- The double nearest to an unsigned decimal text. -/
def ofDigits? (cs : List Char) : Option Double :=
  (Decimal.read? cs).map fun d => ofDecimal false d.digits d.exponent

/-- The double nearest to a decimal text with an optional sign, or a name of a special value:
`inf`, `infinity` or `nan` in any case. -/
def ofText? (cs : List Char) : Option Double :=
  let (negative, body) := match cs with
    | '-' :: rest => (true, rest)
    | '+' :: rest => (false, rest)
    | rest => (false, rest)
  if Text.sameWord body "inf".toList || Text.sameWord body "infinity".toList then
    some (infinity negative)
  else if Text.sameWord body "nan".toList then some nan
  else (Decimal.read? body).map fun d => ofDecimal negative d.digits d.exponent

end Double

/-- The integer that a decimal text with an optional sign stands for. -/
def readInt? (cs : List Char) : Option Int :=
  let (negative, ds) := match cs with
    | '-' :: rest => (true, rest)
    | '+' :: rest => (false, rest)
    | rest => (false, rest)
  if ds.isEmpty || !ds.all Char.isDigit then none
  else some (if negative then -(digitsValue ds : Int) else digitsValue ds)

/-- An integer text as a 64-bit integer, if it fits. -/
def readInt64? (cs : List Char) : Option Int64 :=
  (readInt? cs).bind fun n =>
    if fitsSigned 64 n then some (Int64.ofInt n) else none

/-- An integer text as a 32-bit integer, if it fits. -/
def readInt32? (cs : List Char) : Option Int32 :=
  (readInt? cs).bind fun n =>
    if fitsSigned 32 n then some (Int32.ofInt n) else none

end BoundSql
