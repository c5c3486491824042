import BoundSql.Dialect
import BoundSql.Number.Shortest

/-!
# Literals

Constants of SQL and how a dialect writes them.
-/

namespace BoundSql

/-- A text as a string literal of the dialect. A quote is doubled, and so is a backslash where it
escapes. -/
def quoteString (d : Dialect) (text : String) : String :=
  String.ofList ('\'' :: text.toList.flatMap escape ++ ['\''])
where
  /-- A character as it stands inside the literal. -/
  escape (c : Char) : List Char :=
    if c = '\'' then ['\'', '\'']
    else if c = '\\' && d.backslashEscapes then ['\\', '\\']
    else [c]

/-- Bytes as pairs of upper case hexadecimal digits. -/
def hexText (bytes : List UInt8) : List Char :=
  bytes.flatMap fun b => [Text.hexDigit (b.toNat / 16), Text.hexDigit (b.toNat % 16)]

/-- Bytes as a blob literal. -/
def quoteBlob (bytes : List UInt8) : String :=
  String.ofList ('X' :: '\'' :: hexText bytes ++ ['\''])

/-- A constant. -/
inductive Literal
  | integer (n : Int64)
  | float (x : Double)
  | string (text : String)
  | blob (bytes : List UInt8)
  | boolean (b : Bool)
  | null
  /-- The keyword DEFAULT in place of a value. -/
  | columnDefault
  deriving DecidableEq, Repr

namespace Literal

/-- How the dialect writes the literal. -/
def sql (d : Dialect) : Literal → String
  | integer n => toString n.toInt
  | float x => x.toText
  | string text => quoteString d text
  | blob bytes => quoteBlob bytes
  | boolean b => d.booleanLiteral b
  | null => "NULL"
  | columnDefault => "DEFAULT"

end Literal

end BoundSql
