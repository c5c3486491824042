import BoundSql.Param.Key
import BoundSql.Tree.DataType
import BoundSql.Tree.Literal
import BoundSql.Tree.Operator

/-!
# Expressions and queries

The two kinds of tree that contain each other: an expression may hold a query, and a query holds
expressions in every clause.
-/

namespace BoundSql

/-- A name with its qualifiers, the outermost first. Delimited parts keep their delimiters. -/
structure Identifier where
  parts : List String
  deriving DecidableEq, Repr

namespace Identifier

/-- The parts with points between them. -/
def dotted (i : Identifier) : String := String.intercalate "." i.parts

end Identifier

/-- A place in a statement where a parameter stands. -/
structure ParamRef where
  key : ParamKey
  /-- The literal in front of an attached placeholder. -/
  default : Option Literal
  /-- The parameter is known to be bound to NULL and is written as `NULL`. -/
  nullBound : Bool
  deriving DecidableEq, Repr

namespace ParamRef

/-- A plain reference to a parameter. -/
def ofKey (key : ParamKey) : ParamRef := { key, default := none, nullBound := false }

end ParamRef

/-- A set operator between queries. -/
inductive SetOp
  | union
  | unionAll
  | intersect
  | intersectAll
  | except
  | exceptAll
  deriving DecidableEq, Repr

namespace SetOp

/-- How the operator is written. -/
def sql : SetOp → String
  | union => "UNION"
  | unionAll => "UNION ALL"
  | intersect => "INTERSECT"
  | intersectAll => "INTERSECT ALL"
  | except => "EXCEPT"
  | exceptAll => "EXCEPT ALL"

/-- The name of the operator, in one word. -/
def name : SetOp → String
  | union => "UNION"
  | unionAll => "UNION_ALL"
  | intersect => "INTERSECT"
  | intersectAll => "INTERSECT_ALL"
  | except => "EXCEPT"
  | exceptAll => "EXCEPT_ALL"

end SetOp

/-- The direction of a sort. -/
inductive SortOrder
  | asc
  | desc
  deriving DecidableEq, Repr

namespace SortOrder

/-- How the direction is written. -/
def sql : SortOrder → String
  | asc => "ASC"
  | desc => "DESC"

end SortOrder

/-- How a target of FROM is joined to those before it. -/
inductive JoinKind
  | cross
  | natural
  | inner
  | left
  | right
  | full
  deriving DecidableEq, Repr

namespace JoinKind

/-- The name of the join. -/
def name : JoinKind → String
  | cross => "CROSS"
  | natural => "NATURAL"
  | inner => "INNER"
  | left => "LEFT"
  | right => "RIGHT"
  | full => "FULL"

/-- The keywords in front of the joined target. -/
def sql (k : JoinKind) : String := k.name ++ " JOIN"

end JoinKind

mutual

/-- An expression. -/
inductive Expr
  | literal (l : Literal)
  | name (i : Identifier)
  | param (p : ParamRef)
  | call (function : String) (distinct : Bool) (args : List Expr)
  | operation (op : Operator) (operands : List Expr)
  | subquery (q : Query)
  | cases (base : Option Expr) (arms : List (Expr × Expr)) (otherwise : Option Expr)
  | cast (e : Expr) (type : DataType)
  /-- All columns, or all of one table. -/
  | wildcard (table : Option String)

/-- A query. -/
inductive Query
  | select (s : Select)
  | compound (c : Compound)

/-- One SELECT with its clauses. -/
structure Select where
  distinct : Bool
  distinctOn : Option Expr
  columns : List Column
  source : Option FromClause
  condition : Option Expr
  groupBy : List Expr
  having : Option Expr
  orderBy : List OrderItem
  limit : Option Expr
  offset : Option Expr

/-- Queries under one set operator. The bounding clauses apply to all rows together. -/
structure Compound where
  op : SetOp
  branches : List Query
  orderBy : List OrderItem
  limit : Option Expr
  offset : Option Expr

/-- A result column. -/
structure Column where
  expr : Expr
  label : Option String

/-- One key of a sort. -/
structure OrderItem where
  expr : Expr
  order : SortOrder
  collation : Option String

/-- The targets of FROM in source order, and the joins between them. -/
structure FromClause where
  targets : List Target
  joins : List Join

/-- What a target of FROM reads, and its name. -/
structure Target where
  rows : TableSource
  label : Option String

/-- Where rows come from. -/
inductive TableSource
  | table (i : Identifier)
  | subquery (q : Query)

/-- The join of the target at `position` to the targets before it. -/
structure Join where
  kind : JoinKind
  position : Nat
  condition : JoinCondition

/-- Which rows of a join match. -/
inductive JoinCondition
  | none
  | predicate (e : Expr)
  | columns (names : List String)

end

/-- A SELECT with only the given columns. -/
def Select.ofColumns (columns : List Column) : Select :=
  { distinct := false, distinctOn := none, columns, source := none, condition := none
    groupBy := [], having := none, orderBy := [], limit := none, offset := none }

namespace Compound

/-- Queries under a set operator, without bounding clauses. -/
def ofBranches (op : SetOp) (branches : List Query) : Compound :=
  { op, branches, orderBy := [], limit := none, offset := none }

/-- Whether ORDER BY, LIMIT or OFFSET applies to the rows together. -/
def isBounded (c : Compound) : Bool :=
  !c.orderBy.isEmpty || c.limit.isSome || c.offset.isSome

/-- A single branch without bounding clauses stands for itself. -/
def reduce (c : Compound) : Query :=
  match c.branches with
  | [only] => if c.isBounded then .compound c else only
  | _ => .compound c

end Compound

namespace Select

/-- Whether the SELECT has ORDER BY, LIMIT or OFFSET. -/
def isBounded (s : Select) : Bool :=
  !s.orderBy.isEmpty || s.limit.isSome || s.offset.isSome

end Select

namespace Expr

/-- Whether the expression stands for columns that only the database knows. -/
def isWildcard : Expr → Bool
  | wildcard _ => true
  | _ => false

end Expr

namespace Select

/-- The number of result columns, unless it depends on the tables. -/
def columnCount (s : Select) : Option Nat :=
  if s.columns.any (·.expr.isWildcard) then none else some s.columns.length

end Select

namespace Query

/-- Whether the query as a whole has ORDER BY, LIMIT or OFFSET. -/
def isBounded : Query → Bool
  | select s => s.isBounded
  | compound c => c.isBounded

mutual

/-- The number of result columns, unless it depends on the tables. A compound has as many as its
first branch that has a number. -/
def columnCount : Query → Option Nat
  | select s => s.columnCount
  | compound ⟨_, branches, _, _, _⟩ => branchCount branches

/-- The first number of result columns among queries. -/
def branchCount : List Query → Option Nat
  | [] => none
  | q :: qs =>
    match columnCount q with
    | some n => some n
    | none => branchCount qs

end

end Query

end BoundSql
