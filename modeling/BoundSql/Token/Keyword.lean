import BoundSql.Text.Basic

/-!
# Keywords

The words with a meaning of their own in the grammar. Each constructor is named by its spelling.
-/

namespace BoundSql

/-- A keyword of SQL. -/
inductive Keyword
  -- Data Query Language
  | SELECT | FROM | WHERE | ORDER | BY | GROUP | HAVING | LIMIT | OFFSET | DISTINCT | ALL
  | COLLATE
  -- Joins
  | JOIN | INNER | LEFT | RIGHT | FULL | OUTER | CROSS | NATURAL | ON | USING
  -- Set operations
  | UNION | INTERSECT | EXCEPT
  -- Data Manipulation Language
  | INSERT | INTO | VALUES | UPDATE | SET | DELETE | REPLACE | DEFAULT
  -- Logical and comparison operators
  | AND | OR | NOT | IN | BETWEEN | LIKE | ILIKE | SIMILAR | TO | IS | ISNULL | NOTNULL | NULL
  | TRUE | FALSE | EXISTS
  -- Ordering
  | ASC | DESC | NULLS | FIRST | LAST
  -- Expressions
  | AS | CASE | WHEN | THEN | ELSE | END | CAST
  -- Transactions
  | BEGIN | START | COMMIT | ROLLBACK | TRANSACTION | WORK | SAVEPOINT | RELEASE | ISOLATION
  | LEVEL | READ | WRITE | ONLY | COMMITTED | UNCOMMITTED | REPEATABLE | SERIALIZABLE | DEFERRED
  | IMMEDIATE | EXCLUSIVE
  -- Conflict resolution
  | ABORT | FAIL | IGNORE
  -- Procedural blocks
  | CREATE | DECLARE | LOOP | IF
  -- Data types
  | INT | INTEGER | SMALLINT | BIGINT | REAL | DOUBLE | FLOAT | DECIMAL | NUMERIC | CHAR
  | VARCHAR | TEXT | BLOB | BOOLEAN | DATE | TIME | TIMESTAMP | DATETIME
  deriving DecidableEq, Repr

namespace Keyword

/-- The upper case spelling. -/
def spelling : Keyword → String
  | SELECT => "SELECT"
  | FROM => "FROM"
  | WHERE => "WHERE"
  | ORDER => "ORDER"
  | BY => "BY"
  | GROUP => "GROUP"
  | HAVING => "HAVING"
  | LIMIT => "LIMIT"
  | OFFSET => "OFFSET"
  | DISTINCT => "DISTINCT"
  | ALL => "ALL"
  | COLLATE => "COLLATE"
  | JOIN => "JOIN"
  | INNER => "INNER"
  | LEFT => "LEFT"
  | RIGHT => "RIGHT"
  | FULL => "FULL"
  | OUTER => "OUTER"
  | CROSS => "CROSS"
  | NATURAL => "NATURAL"
  | ON => "ON"
  | USING => "USING"
  | UNION => "UNION"
  | INTERSECT => "INTERSECT"
  | EXCEPT => "EXCEPT"
  | INSERT => "INSERT"
  | INTO => "INTO"
  | VALUES => "VALUES"
  | UPDATE => "UPDATE"
  | SET => "SET"
  | DELETE => "DELETE"
  | REPLACE => "REPLACE"
  | DEFAULT => "DEFAULT"
  | AND => "AND"
  | OR => "OR"
  | NOT => "NOT"
  | IN => "IN"
  | BETWEEN => "BETWEEN"
  | LIKE => "LIKE"
  | ILIKE => "ILIKE"
  | SIMILAR => "SIMILAR"
  | TO => "TO"
  | IS => "IS"
  | ISNULL => "ISNULL"
  | NOTNULL => "NOTNULL"
  | NULL => "NULL"
  | TRUE => "TRUE"
  | FALSE => "FALSE"
  | EXISTS => "EXISTS"
  | ASC => "ASC"
  | DESC => "DESC"
  | NULLS => "NULLS"
  | FIRST => "FIRST"
  | LAST => "LAST"
  | AS => "AS"
  | CASE => "CASE"
  | WHEN => "WHEN"
  | THEN => "THEN"
  | ELSE => "ELSE"
  | END => "END"
  | CAST => "CAST"
  | BEGIN => "BEGIN"
  | START => "START"
  | COMMIT => "COMMIT"
  | ROLLBACK => "ROLLBACK"
  | TRANSACTION => "TRANSACTION"
  | WORK => "WORK"
  | SAVEPOINT => "SAVEPOINT"
  | RELEASE => "RELEASE"
  | ISOLATION => "ISOLATION"
  | LEVEL => "LEVEL"
  | READ => "READ"
  | WRITE => "WRITE"
  | ONLY => "ONLY"
  | COMMITTED => "COMMITTED"
  | UNCOMMITTED => "UNCOMMITTED"
  | REPEATABLE => "REPEATABLE"
  | SERIALIZABLE => "SERIALIZABLE"
  | DEFERRED => "DEFERRED"
  | IMMEDIATE => "IMMEDIATE"
  | EXCLUSIVE => "EXCLUSIVE"
  | ABORT => "ABORT"
  | FAIL => "FAIL"
  | IGNORE => "IGNORE"
  | CREATE => "CREATE"
  | DECLARE => "DECLARE"
  | LOOP => "LOOP"
  | IF => "IF"
  | INT => "INT"
  | INTEGER => "INTEGER"
  | SMALLINT => "SMALLINT"
  | BIGINT => "BIGINT"
  | REAL => "REAL"
  | DOUBLE => "DOUBLE"
  | FLOAT => "FLOAT"
  | DECIMAL => "DECIMAL"
  | NUMERIC => "NUMERIC"
  | CHAR => "CHAR"
  | VARCHAR => "VARCHAR"
  | TEXT => "TEXT"
  | BLOB => "BLOB"
  | BOOLEAN => "BOOLEAN"
  | DATE => "DATE"
  | TIME => "TIME"
  | TIMESTAMP => "TIMESTAMP"
  | DATETIME => "DATETIME"

/-- All keywords. -/
def all : List Keyword :=
  [ .SELECT, .FROM, .WHERE, .ORDER, .BY, .GROUP, .HAVING, .LIMIT, .OFFSET, .DISTINCT, .ALL,
    .COLLATE, .JOIN, .INNER, .LEFT, .RIGHT, .FULL, .OUTER, .CROSS, .NATURAL, .ON, .USING, .UNION,
    .INTERSECT, .EXCEPT, .INSERT, .INTO, .VALUES, .UPDATE, .SET, .DELETE, .REPLACE, .DEFAULT,
    .AND, .OR, .NOT, .IN, .BETWEEN, .LIKE, .ILIKE, .SIMILAR, .TO, .IS, .ISNULL, .NOTNULL, .NULL,
    .TRUE, .FALSE, .EXISTS, .ASC, .DESC, .NULLS, .FIRST, .LAST, .AS, .CASE, .WHEN, .THEN, .ELSE,
    .END, .CAST, .BEGIN, .START, .COMMIT, .ROLLBACK, .TRANSACTION, .WORK, .SAVEPOINT, .RELEASE,
    .ISOLATION, .LEVEL, .READ, .WRITE, .ONLY, .COMMITTED, .UNCOMMITTED, .REPEATABLE,
    .SERIALIZABLE, .DEFERRED, .IMMEDIATE, .EXCLUSIVE, .ABORT, .FAIL, .IGNORE, .CREATE, .DECLARE,
    .LOOP, .IF, .INT, .INTEGER, .SMALLINT, .BIGINT, .REAL, .DOUBLE, .FLOAT, .DECIMAL, .NUMERIC,
    .CHAR, .VARCHAR, .TEXT, .BLOB, .BOOLEAN, .DATE, .TIME, .TIMESTAMP, .DATETIME ]

/-- The keyword with this spelling in any case. -/
def ofWord? (word : List Char) : Option Keyword :=
  let spelled := String.ofList (Text.upper word)
  all.find? (·.spelling == spelled)

/-- Whether the keyword can never stand as a bare name or alias. -/
def isReserved : Keyword → Bool
  | .SELECT | .FROM | .WHERE | .ORDER | .BY | .GROUP | .HAVING | .LIMIT | .OFFSET | .DISTINCT
  | .ALL | .COLLATE | .JOIN | .INNER | .LEFT | .RIGHT | .FULL | .OUTER | .CROSS | .NATURAL
  | .ON | .USING | .UNION | .INTERSECT | .EXCEPT | .INSERT | .INTO | .VALUES | .UPDATE | .SET
  | .DELETE | .DEFAULT | .AND | .OR | .NOT | .IN | .BETWEEN | .LIKE | .ILIKE | .SIMILAR | .IS
  | .ISNULL | .NOTNULL | .NULL | .TRUE | .FALSE | .EXISTS | .ASC | .DESC | .AS | .CASE
  | .WHEN | .THEN | .ELSE | .END | .CAST | .CREATE => true
  | _ => false

end Keyword

end BoundSql
