import BoundSql.Calendar.Basic
import BoundSql.Param.ValueType
import BoundSql.Tree.Literal

/-!
# Bound values

The values that a parameter can be bound to, and how a dialect writes them in place.
-/

namespace BoundSql

/-- A value bound to a parameter. -/
inductive Value
  | null
  /-- The default of the column. -/
  | columnDefault
  | bool (b : Bool)
  | int (n : Int64)
  | float (x : Double)
  | text (s : String)
  | blob (bytes : List UInt8)
  | date (d : Date)
  | time (t : TimeOfDay)
  | timestamp (t : DateTime)
  | zoned (t : ZonedDateTime)
  deriving DecidableEq, Repr

namespace Value

/-- The value that a literal stands for. -/
def ofLiteral : Literal → Value
  | .integer n => int n
  | .float x => float x
  | .string s => text s
  | .blob bytes => blob bytes
  | .boolean b => bool b
  | .null => null
  | .columnDefault => columnDefault

/-- Whether the value is NULL. -/
def isNull : Value → Bool
  | null => true
  | _ => false

/-- The canonical type. -/
def type : Value → ValueType
  | null | columnDefault => .null
  | bool _ => .boolean
  | int _ => .integer
  | float _ => .float
  | text _ => .string
  | blob _ => .blob
  | date _ => .date
  | time _ => .time
  | timestamp _ | zoned _ => .timestamp

/-- A text without quotes inside, as a string literal. -/
def quotePlain (s : String) : String := "'" ++ s ++ "'"

/-- How the dialect writes the value in place. With `gmt` a timestamp that has an offset is
converted to UTC. -/
def sql (d : Dialect) (gmt : Bool) : Value → String
  | null => "NULL"
  | columnDefault => "DEFAULT"
  | bool b => d.booleanLiteral b
  | int n => toString n.toInt
  | float x => x.toText
  | text s => quoteString d s
  | blob bytes => quoteBlob bytes
  | date t => quotePlain t.toText
  | time t => quotePlain t.toText
  | timestamp t => quotePlain t.toText
  | zoned t => quotePlain (if gmt then t.toUtc.toText else t.toText)

/-- Whether the value is a float that is no number. -/
def notFinite? : Value → Option Double
  | float x => if x.isFinite then none else some x
  | _ => none

end Value

namespace ValueType

/-- Whether a value may be bound to a parameter of this type, nullability aside. -/
def accepts : ValueType → Value → Bool
  | _, .null | _, .columnDefault | unknown, _ => true
  | integer, .int _ => true
  | float, .int _ | float, .float _ => true
  | numeric, .int _ | numeric, .float _ | numeric, .text _ => true
  | string, .text _ => true
  | boolean, .bool _ => true
  | date, .date _ => true
  | time, .time _ => true
  | timestamp, .timestamp _ | timestamp, .zoned _ => true
  | blob, .blob _ => true
  | _, _ => false

end ValueType

end BoundSql
