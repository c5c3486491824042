import BoundSql.Number.Reading

/-!
# Keys of parameters

A parameter has a name, or stands for a relative row or context offset.
-/

namespace BoundSql

/-- What identifies a parameter within its statement. -/
inductive ParamKey
  | named (name : String)
  | offset (n : Int32)
  deriving DecidableEq, Repr

namespace ParamKey

/-- Whether the text begins with a sign. -/
def isSigned : List Char → Bool
  | c :: _ => c == '+' || c == '-'
  | [] => false

/-- A signed integer that fits in 32 bits is an offset, any other text a name. -/
def read (text : List Char) : ParamKey :=
  match if isSigned text then readInt32? text else none with
  | some n => .offset n
  | none => .named (String.ofList text)

/-- The name of a named parameter. -/
def name? : ParamKey → Option String
  | named name => some name
  | offset _ => none

/-- How the parameter is shown: its name, or its offset with a sign. -/
def display : ParamKey → String
  | named name => name
  | offset n => if 0 ≤ n.toInt then "+" ++ toString n.toInt else toString n.toInt

end ParamKey

end BoundSql
