/-!
# Value types

A declared type name of a parameter stands for one of a few canonical types.
-/

namespace BoundSql

/-- The canonical type of a parameter or value. -/
inductive ValueType
  | integer
  | float
  | numeric
  | string
  | boolean
  | date
  | time
  | timestamp
  | blob
  /-- Only NULL. -/
  | null
  /-- No known type. -/
  | unknown
  deriving DecidableEq, Repr

namespace ValueType

/-- The canonical type that a type name, in any case, stands for. -/
def ofName (name : String) : ValueType :=
  match name.toLower with
  | "int" | "integer" | "int4" | "int8" | "bigint" | "smallint" | "tinyint" | "gint" | "gint64"
  | "guint" | "glong" | "gulong" | "gshort" | "gushort" | "long" => integer
  | "float" | "double" | "real" | "float4" | "float8" | "gfloat" | "gdouble" => float
  | "numeric" | "decimal" | "gdanumeric" | "number" => numeric
  | "string" | "text" | "varchar" | "char" | "character" | "gchararray" | "clob" => string
  | "boolean" | "bool" | "gboolean" => boolean
  | "date" | "gdate" => date
  | "time" | "gdatime" | "gdatimestampz" => time
  | "timestamp" | "datetime" | "timestamptz" | "gdatetime" | "gdatimestamp" => timestamp
  | "blob" | "binary" | "bytea" | "gdablob" | "gdabinary" => blob
  | "null" | "gdanull" => null
  | _ => unknown

/-- The canonical name. -/
def name : ValueType → String
  | integer => "int"
  | float => "float"
  | numeric => "numeric"
  | string => "string"
  | boolean => "boolean"
  | date => "date"
  | time => "time"
  | timestamp => "timestamp"
  | blob => "blob"
  | null => "null"
  | unknown => "unknown"

end ValueType

end BoundSql
