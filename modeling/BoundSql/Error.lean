import BoundSql.Grammar.Cursor
import BoundSql.Param.Bindings
import BoundSql.Tree.Statement

/-!
# Errors

What can keep a text from becoming a statement, or a statement from becoming a text.
-/

namespace BoundSql

/-- A rule about the shape of a statement that is broken. -/
inductive Violation
  /-- A row, counted from one, does not have as many values as expected. -/
  | rowWidth (row values expected : Nat)
  | insertWidth (listed returned : Nat)
  | noAssignments
  | fewBranches (op : SetOp) (branches : Nat)
  | branchWidths (op : SetOp) (first other : Nat)
  | noColumns
  | noTargets
  | joinPosition (position targets : Nat)
  | joinCondition (kind : JoinKind)
  | operandCount (op : Operator) (operands : Nat)
  | noWhen
  | typeClash (c : ParamConflict)
  deriving DecidableEq, Repr

namespace Violation

/-- The text shown to users. -/
def message : Violation → String
  | rowWidth row values expected => s!"VALUES row {row} has {values} values, expected {expected}"
  | insertWidth listed returned =>
    s!"INSERT lists {listed} columns but the query returns {returned}"
  | noAssignments => "UPDATE without assignments"
  | fewBranches op branches => s!"{op.sql} needs at least two branches, found {branches}"
  | branchWidths op first other => s!"{op.sql} branches return {first} and {other} columns"
  | noColumns => "SELECT without fields"
  | noTargets => "FROM without targets"
  | joinPosition position targets => s!"join refers to target {position} of {targets}"
  | joinCondition kind => s!"{kind.sql} cannot have a join condition"
  | operandCount op operands => s!"operator {op.sql} cannot take {operands} operands"
  | noWhen => "CASE without WHEN"
  | typeClash c =>
    let kept := c.kept.getD "untyped"
    let other := c.other.getD "untyped"
    s!"parameter '{c.key.display}' declared as both {kept} and {other}"

end Violation

/-- Why a dialect cannot express a statement. -/
inductive RenderProblem
  | unsupported (what : String) (d : Dialect)
  | unnamed (kind : TransactionKind)
  | operandCount (op : Operator) (operands : Nat)
  deriving DecidableEq, Repr

namespace RenderProblem

/-- The text shown to users. -/
def message : RenderProblem → String
  | unsupported what d => s!"{what} is not supported by the {d.name} dialect"
  | unnamed kind => s!"{kind.name} without a name"
  | operandCount op operands => s!"operator {op.sql} cannot take {operands} operands"

end RenderProblem

/-- An error about SQL. -/
inductive SqlError
  /-- A piece of text that is no token. -/
  | lexical (e : LexicalError) (pos : Text.Position)
  /-- Tokens that do not follow the grammar, or nest too deep. -/
  | grammar (e : ParseError)
  /-- A statement longer than the limit. -/
  | tooLong (limit : Nat) (pos : Text.Position)
  /-- A text without any statement. -/
  | noStatement
  | malformed (v : Violation)
  | bind (param : String) (reason : BindReason)
  | render (p : RenderProblem)
  deriving DecidableEq, Repr

namespace SqlError

/-- The kinds of errors that users tell apart. -/
inductive Kind
  | syntaxError
  | overflow
  | emptySql
  | malformed
  | bind
  | render
  deriving DecidableEq, Repr

/-- The kind of an error. -/
def kind : SqlError → Kind
  | lexical _ _ => .syntaxError
  | grammar e => if e.isOverflow then .overflow else .syntaxError
  | tooLong _ _ => .overflow
  | noStatement => .emptySql
  | malformed _ => .malformed
  | bind _ _ => .bind
  | render _ => .render

/-- Where the error shows in the text. -/
def pos? : SqlError → Option Text.Position
  | lexical _ pos => some pos
  | grammar e => some e.token.pos
  | tooLong _ pos => some pos
  | _ => none

/-- A message with the place it is about. -/
def located (what : String) (pos : Text.Position) (message : String) : String :=
  s!"{what} error at line {pos.line}, column {pos.col}: {message}"

/-- The text shown to users. -/
def message : SqlError → String
  | lexical e pos => located "Syntax" pos e.message
  | grammar e => located (if e.isOverflow then "Overflow" else "Syntax") e.token.pos e.message
  | tooLong limit pos => located "Overflow" pos s!"statement exceeds {limit} bytes"
  | noStatement => "SQL code does not contain any statement"
  | malformed v => s!"Malformed statement: {v.message}"
  | bind param reason => s!"Parameter '{param}': {reason.message}"
  | render p => s!"Rendering error: {p.message}"

end SqlError

end BoundSql
