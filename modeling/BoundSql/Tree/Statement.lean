import BoundSql.Param.Table
import BoundSql.Tree.Expr

/-!
# Statements

A statement is its text, its tree and its parameters. A statement that the grammar does not take
apart is kept as text, cut around its placeholders.
-/

namespace BoundSql

/-- Where the rows of an INSERT come from. -/
inductive InsertSource
  | values (rows : List (List Expr))
  | query (q : Query)
  | defaultValues

/-- An INSERT. -/
structure Insert where
  table : Identifier
  /-- The columns; none if they are not listed. -/
  columns : List String
  source : InsertSource
  /-- What happens on a conflict: the word after OR, or REPLACE. -/
  onConflict : Option String

/-- A column and its new value. -/
structure Assignment where
  column : String
  value : Expr

/-- An UPDATE. -/
structure Update where
  table : Identifier
  onConflict : Option String
  assignments : List Assignment
  condition : Option Expr

/-- A DELETE. -/
structure Delete where
  table : Identifier
  condition : Option Expr

/-- A command about transactions. -/
inductive TransactionKind
  | begin
  | commit
  | rollback
  | savepoint
  | rollbackSavepoint
  | releaseSavepoint
  deriving DecidableEq, Repr

namespace TransactionKind

/-- The name of the statement type. -/
def name : TransactionKind → String
  | begin => "BEGIN"
  | commit => "COMMIT"
  | rollback => "ROLLBACK"
  | savepoint => "SAVEPOINT"
  | rollbackSavepoint => "ROLLBACK_SAVEPOINT"
  | releaseSavepoint => "DELETE_SAVEPOINT"

end TransactionKind

/-- How far transactions are kept apart. -/
inductive IsolationLevel
  | readCommitted
  | readUncommitted
  | repeatableRead
  | serializable
  deriving DecidableEq, Repr

namespace IsolationLevel

/-- How the level is written. -/
def sql : IsolationLevel → String
  | readCommitted => "READ COMMITTED"
  | readUncommitted => "READ UNCOMMITTED"
  | repeatableRead => "REPEATABLE READ"
  | serializable => "SERIALIZABLE"

end IsolationLevel

/-- How a transaction locks or what it may do. -/
inductive TransactionMode
  | deferred
  | immediate
  | exclusive
  | readOnly
  | readWrite
  deriving DecidableEq, Repr

namespace TransactionMode

/-- How the mode is written. -/
def sql : TransactionMode → String
  | deferred => "DEFERRED"
  | immediate => "IMMEDIATE"
  | exclusive => "EXCLUSIVE"
  | readOnly => "READ ONLY"
  | readWrite => "READ WRITE"

/-- Whether the mode is about locks. -/
def isLocking : TransactionMode → Bool
  | deferred | immediate | exclusive => true
  | readOnly | readWrite => false

end TransactionMode

/-- BEGIN, COMMIT, ROLLBACK or a savepoint command. -/
structure Transaction where
  kind : TransactionKind
  name : Option String
  isolation : Option IsolationLevel
  mode : Option TransactionMode
  deriving DecidableEq, Repr

namespace Transaction

/-- A command without options. -/
def plain (kind : TransactionKind) (name : Option String := none) : Transaction :=
  { kind, name, isolation := none, mode := none }

end Transaction

/-- A piece of a statement that is kept as text. -/
inductive Fragment
  | text (t : String)
  | param (p : ParamRef)
  deriving DecidableEq, Repr

namespace Fragment

/-- The fragments with a text behind them. Empty text adds nothing, and text joins text. -/
def pushText (parts : List Fragment) (t : String) : List Fragment :=
  if t.isEmpty then parts
  else match parts with
    | [] => [.text t]
    | [.text last] => [.text (last ++ t)]
    | part :: rest => part :: pushText rest t

end Fragment

/-- The tree of a statement. -/
inductive Body
  | select (s : Select)
  | insert (i : Insert)
  | update (u : Update)
  | delete (d : Delete)
  | compound (c : Compound)
  | transaction (t : Transaction)
  /-- A statement kept as text. -/
  | verbatim (parts : List Fragment)

namespace Body

/-- A query as a statement. -/
def ofQuery : Query → Body
  | .select s => select s
  | .compound c => compound c

/-- The name of the statement type. -/
def typeName : Body → String
  | select _ => "SELECT"
  | insert _ => "INSERT"
  | update _ => "UPDATE"
  | delete _ => "DELETE"
  | compound _ => "COMPOUND"
  | transaction t => t.kind.name
  | verbatim _ => "UNKNOWN"

end Body

/-- A statement. -/
structure Statement where
  /-- The text without the delimiter. -/
  sql : String
  body : Body
  params : ParamTable

end BoundSql
