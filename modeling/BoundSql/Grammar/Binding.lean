import BoundSql.Token.Basic
import BoundSql.Tree.Operator

/-!
# How tightly operators bind while they are read

Behind an operand, a token may begin an infix form. Each form has a power to its left and one to its
right; a form is taken up only if its left power reaches the least power asked for, and its right
operand is read with its right power, which is greater, so that equal operators group to the left.
-/

namespace BoundSql

/-- What a token behind an operand begins. -/
inductive Infix
  | cast
  | isNull
  | isNotNull
  | is
  | negated
  | isIn
  | between
  | similar
  | binary (op : Operator)
  deriving DecidableEq, Repr

namespace Infix

/-- What a keyword behind an operand begins. -/
def ofKeyword? : Keyword → Option Infix
  | .OR => some (.binary .or)
  | .AND => some (.binary .and)
  | .IS => some is
  | .IN => some isIn
  | .BETWEEN => some between
  | .LIKE => some (.binary .like)
  | .ILIKE => some (.binary .ilike)
  | .SIMILAR => some similar
  | .NOT => some negated
  | .ISNULL => some isNull
  | .NOTNULL => some isNotNull
  | _ => none

/-- What a sign behind an operand begins. -/
def ofPunct? : Punct → Option Infix
  | .eq => some (.binary .eq)
  | .notEq => some (.binary .diff)
  | .lt => some (.binary .lt)
  | .ltEq => some (.binary .leq)
  | .gt => some (.binary .gt)
  | .gtEq => some (.binary .geq)
  | .regexp => some (.binary .regexp)
  | .regexpCi => some (.binary .regexpCi)
  | .notRegexp => some (.binary .notRegexp)
  | .notRegexpCi => some (.binary .notRegexpCi)
  | .bitOr => some (.binary .bitOr)
  | .bitAnd => some (.binary .bitAnd)
  | .leftShift => some (.binary .leftShift)
  | .rightShift => some (.binary .rightShift)
  | .plus => some (.binary .plus)
  | .minus => some (.binary .minus)
  | .concat => some (.binary .concat)
  | .star => some (.binary .star)
  | .slash => some (.binary .div)
  | .percent => some (.binary .rem)
  | .doubleColon => some cast
  | _ => none

/-- What a token behind an operand begins. -/
def ofToken? : TokenKind → Option Infix
  | .keyword k => ofKeyword? k
  | .punct p => ofPunct? p
  | _ => none

/-- The power to the left. -/
def left : Infix → Nat
  | cast => 19
  | binary op =>
    match op with
    | .or => 1
    | .and => 3
    | .bitOr => 7
    | .bitAnd => 9
    | .leftShift | .rightShift => 11
    | .plus | .minus | .concat => 13
    | .star | .div | .rem => 15
    | _ => 5
  | _ => 5

/-- The power to the right. -/
def right (i : Infix) : Nat := i.left + 1

end Infix

/-- The power with which the operand of NOT is read: comparisons belong to it, AND does not. -/
def notPower : Nat := 5

/-- The power with which the operand of a sign is read. -/
def signPower : Nat := 17

end BoundSql
