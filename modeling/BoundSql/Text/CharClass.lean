import BoundSql.Text.Alphabetic
import BoundSql.Text.Numeric
import BoundSql.Text.Uppercase

/-!
# Character classes

The classes that the lexical rules of SQL ask about. Each agrees with Lean's own class on ASCII
and reads a range table beyond it.
-/

namespace BoundSql.Text

/-- The code points below this one are ASCII. -/
def asciiLimit : Nat := 0x80

/-- The Unicode property Alphabetic. -/
def isAlphabetic (c : Char) : Bool :=
  if c.toNat < asciiLimit then c.isAlpha else inRanges alphabeticRanges c.toNat

/-- The general categories Nd, Nl and No. -/
def isNumeric (c : Char) : Bool :=
  if c.toNat < asciiLimit then c.isDigit else inRanges numericRanges c.toNat

/-- Letters and numbers: Alphabetic, or one of the categories Nd, Nl and No. -/
def isAlphanumeric (c : Char) : Bool :=
  isAlphabetic c || isNumeric c

/-- The Unicode property Uppercase. -/
def isUppercase (c : Char) : Bool :=
  if c.toNat < asciiLimit then c.isUpper else inRanges uppercaseRanges c.toNat

/-- The code points of the Unicode property White_Space. -/
def blankRanges : List CodeRange :=
  [ (0x9, 0xd), (0x20, 0x20), (0x85, 0x85), (0xa0, 0xa0), (0x1680, 0x1680), (0x2000, 0x200a),
    (0x2028, 0x2029), (0x202f, 0x202f), (0x205f, 0x205f), (0x3000, 0x3000) ]

/-- The Unicode property White_Space. -/
def isBlank (c : Char) : Bool :=
  inRanges blankRanges c.toNat

/-- A letter, number or underscore: what the names of parameters and dollar tags consist of. -/
def isWordChar (c : Char) : Bool :=
  isAlphanumeric c || c == '_'

/-- What may follow the first character of an undelimited identifier. -/
def isNameChar (c : Char) : Bool :=
  isWordChar c || c == '$'

/-- A hexadecimal digit of either case. -/
def isHexDigit (c : Char) : Bool :=
  c.isDigit || ('a' ≤ c && c ≤ 'f') || ('A' ≤ c && c ≤ 'F')

/-- The value of a hexadecimal digit; zero for any other character. -/
def hexValue (c : Char) : Nat :=
  if c.isDigit then c.toNat - '0'.toNat
  else if 'a' ≤ c && c ≤ 'f' then c.toNat - 'a'.toNat + 10
  else if 'A' ≤ c && c ≤ 'F' then c.toNat - 'A'.toNat + 10
  else 0

/-- The upper case hexadecimal digit of a number below sixteen. -/
def hexDigit (n : Nat) : Char :=
  if n < 10 then Char.ofNat ('0'.toNat + n) else Char.ofNat ('A'.toNat + (n - 10))

theorem isAlphabetic_of_isAlpha {c : Char} (h : c.isAlpha) (hc : c.toNat < asciiLimit) :
    isAlphabetic c := by
  simp [isAlphabetic, hc, h]

end BoundSql.Text
