/-!
# Operators

The operators of expressions: how they are written, how tightly they bind and how many operands
they take.
-/

namespace BoundSql

/-- An operator of an expression. -/
inductive Operator
  | and | or | not
  | eq | diff | lt | leq | gt | geq
  | is | isNull | isNotNull
  | isIn | notIn
  | like | notLike | ilike | notIlike | similar
  | between
  | regexp | regexpCi | notRegexp | notRegexpCi
  | concat | plus | minus | star | div | rem
  | bitAnd | bitOr | bitNot | leftShift | rightShift
  deriving DecidableEq, Repr

/-- How many operands an operator takes. -/
inductive Arity
  | unary
  | binary
  | ternary
  /-- Two or more. -/
  | variadic
  | unaryOrBinary
  deriving DecidableEq, Repr

namespace Operator

/-- How the operator is written. -/
def sql : Operator → String
  | and => "AND"
  | or => "OR"
  | not => "NOT"
  | eq => "="
  | diff => "!="
  | lt => "<"
  | leq => "<="
  | gt => ">"
  | geq => ">="
  | is => "IS"
  | isNull => "IS NULL"
  | isNotNull => "IS NOT NULL"
  | isIn => "IN"
  | notIn => "NOT IN"
  | like => "LIKE"
  | notLike => "NOT LIKE"
  | ilike => "ILIKE"
  | notIlike => "NOT ILIKE"
  | similar => "SIMILAR TO"
  | between => "BETWEEN"
  | regexp => "~"
  | regexpCi => "~*"
  | notRegexp => "!~"
  | notRegexpCi => "!~*"
  | concat => "||"
  | plus => "+"
  | minus => "-"
  | star => "*"
  | div => "/"
  | rem => "%"
  | bitAnd => "&"
  | bitOr => "|"
  | bitNot => "~"
  | leftShift => "<<"
  | rightShift => ">>"

/-- How tightly the operator binds; a greater number binds tighter. -/
def precedence : Operator → Nat
  | or => 1
  | and => 2
  | not => 3
  | bitOr => 5
  | bitAnd => 6
  | leftShift | rightShift => 7
  | plus | minus | concat => 8
  | star | div | rem => 9
  | bitNot => 10
  | _ => 4

/-- The number of operands. -/
def arity : Operator → Arity
  | not | isNull | isNotNull | bitNot => .unary
  | between => .ternary
  | and | or | concat | plus | star | isIn | notIn => .variadic
  | minus => .unaryOrBinary
  | _ => .binary

/-- Whether the operator can take `n` operands. -/
def acceptsOperands (op : Operator) (n : Nat) : Bool :=
  match op.arity with
  | .unary => n == 1
  | .binary => n == 2
  | .ternary => n == 3
  | .variadic => 2 ≤ n
  | .unaryOrBinary => n == 1 || n == 2

/-- Whether a chain of the operator is kept as one operation with many operands. -/
def flattens : Operator → Bool
  | and | or | concat | plus | star => true
  | _ => false

/-- Whether the operator matches regular expressions. -/
def isRegexp : Operator → Bool
  | regexp | regexpCi | notRegexp | notRegexpCi => true
  | _ => false

/-- Whether the operator is a case-insensitive LIKE. -/
def isIlike : Operator → Bool
  | ilike | notIlike => true
  | _ => false

end Operator

end BoundSql
