import BoundSql.Number.Width

/-!
# Data types

The types that a CAST can name.
-/

namespace BoundSql

/-- A data type of SQL. -/
inductive DataType
  | smallint
  | integer
  | bigint
  | real
  | double
  | float
  | decimal (precision scale : Option UInt16)
  | numeric (precision scale : Option UInt16)
  | char (length : Option UInt32)
  | varchar (length : Option UInt32)
  | text
  | blob
  | date
  | time
  | timestamp
  | datetime
  | boolean
  /-- Any other type, as written, with its arguments. -/
  | custom (name : String)
  deriving DecidableEq, Repr

namespace DataType

/-- A number as a 16-bit number, if it fits. -/
def narrow (n : UInt32) : Option UInt16 :=
  if fitsUnsigned 16 n.toNat then some (UInt16.ofNat n.toNat) else none

/-- The type that has no arguments and this upper case name. -/
def plain? : String → Option DataType
  | "SMALLINT" => some smallint
  | "INT" | "INTEGER" => some integer
  | "BIGINT" => some bigint
  | "REAL" => some real
  | "DOUBLE" | "DOUBLE PRECISION" => some double
  | "FLOAT" => some float
  | "TEXT" => some text
  | "BLOB" => some blob
  | "DATE" => some date
  | "TIME" => some time
  | "TIMESTAMP" => some timestamp
  | "DATETIME" => some datetime
  | "BOOLEAN" => some boolean
  | _ => none

/-- The type with this upper case name and these arguments, if the arguments suit the name. -/
def known? (name : String) (args : List UInt32) : Option DataType :=
  match name, args with
  | "DECIMAL", [] => some (decimal none none)
  | "DECIMAL", [p] => some (decimal (narrow p) none)
  | "DECIMAL", [p, s] => some (decimal (narrow p) (narrow s))
  | "NUMERIC", [] => some (numeric none none)
  | "NUMERIC", [p] => some (numeric (narrow p) none)
  | "NUMERIC", [p, s] => some (numeric (narrow p) (narrow s))
  | "CHAR", [] => some (char none)
  | "CHAR", [n] => some (char (some n))
  | "VARCHAR", [] | "CHARACTER VARYING", [] => some (varchar none)
  | "VARCHAR", [n] | "CHARACTER VARYING", [n] => some (varchar (some n))
  | name, [] => plain? name
  | _, _ => none

/-- A name with numbers in parentheses behind it. -/
def withArgs (name : String) (args : List UInt32) : String :=
  if args.isEmpty then name
  else name ++ "(" ++ String.intercalate ", " (args.map fun n => toString n.toNat) ++ ")"

/-- The type with this name, in any case, and these arguments. -/
def ofParts (name : String) (args : List UInt32) : DataType :=
  (known? name.toUpper args).getD (custom (withArgs name args))

/-- A name with a precision and scale; a scale alone is not written. -/
def sized (name : String) : Option UInt16 → Option UInt16 → String
  | some p, some s => s!"{name}({p.toNat}, {s.toNat})"
  | some p, none => s!"{name}({p.toNat})"
  | none, _ => name

/-- A name with a length. -/
def withLength (name : String) : Option UInt32 → String
  | some n => s!"{name}({n.toNat})"
  | none => name

/-- How the type is written. -/
def sql : DataType → String
  | smallint => "SMALLINT"
  | integer => "INTEGER"
  | bigint => "BIGINT"
  | real => "REAL"
  | double => "DOUBLE"
  | float => "FLOAT"
  | decimal p s => sized "DECIMAL" p s
  | numeric p s => sized "NUMERIC" p s
  | char n => withLength "CHAR" n
  | varchar n => withLength "VARCHAR" n
  | text => "TEXT"
  | blob => "BLOB"
  | date => "DATE"
  | time => "TIME"
  | timestamp => "TIMESTAMP"
  | datetime => "DATETIME"
  | boolean => "BOOLEAN"
  | custom name => name

end DataType

end BoundSql
