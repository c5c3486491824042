import BoundSql.Text.Basic

/-!
# Dialects

The SQL dialects that are read and written, and the lexical and grammatical facts in which they
differ.
-/

namespace BoundSql

/-- A dialect of SQL. -/
inductive Dialect
  | standard
  | sqlite
  | mysql
  | oracle
  | postgresql
  deriving DecidableEq, Repr

namespace Dialect

/-- All dialects, in the order in which they are listed to users. -/
def all : List Dialect := [standard, sqlite, mysql, oracle, postgresql]

/-- The lower case name. -/
def name : Dialect → String
  | standard => "standard"
  | sqlite => "sqlite"
  | mysql => "mysql"
  | oracle => "oracle"
  | postgresql => "postgresql"

/-- The dialect with exactly this name. -/
def ofName? (text : String) : Option Dialect :=
  all.find? (·.name == text)

/-- The dialect that a user names, in any case; some have a second name. -/
def read (text : String) : Except String Dialect :=
  match text.toLower with
  | "standard" | "generic" | "ansi" => .ok standard
  | "sqlite" => .ok sqlite
  | "mysql" | "mariadb" => .ok mysql
  | "oracle" => .ok oracle
  | "postgresql" | "postgres" | "pg" => .ok postgresql
  | other => .error s!"unknown SQL dialect '{other}'"

/-- The character that delimits identifiers when they are written. -/
def identifierQuote : Dialect → Char
  | mysql => '\x60'
  | _ => '"'

/-- Whether names between backticks are identifiers. -/
def backtickIdentifiers (d : Dialect) : Bool := d = mysql || d = sqlite

/-- Whether text between double quotes is a string, not an identifier. -/
def doubleQuotedStrings (d : Dialect) : Bool := d = mysql

/-- Whether a backslash in a string escapes the next character. -/
def backslashEscapes (d : Dialect) : Bool := d = mysql

/-- Whether a single `#` opens a line comment. -/
def hashComments (d : Dialect) : Bool := d = mysql

/-- Whether strings may be written between dollar tags. -/
def dollarQuotedStrings (d : Dialect) : Bool := d = postgresql

/-- Whether `~` and its relatives match regular expressions. -/
def regexpOperators (d : Dialect) : Bool := d = postgresql

/-- Whether ILIKE exists. -/
def ilike (d : Dialect) : Bool := d = postgresql

/-- Whether DISTINCT ON exists. -/
def distinctOn (d : Dialect) : Bool := d = postgresql

/-- Whether RIGHT and FULL joins exist. -/
def fullJoin (d : Dialect) : Bool := d != mysql && d != sqlite

/-- Whether the number of rows is bounded by LIMIT and OFFSET. -/
def limitOffset (d : Dialect) : Bool := d != oracle

/-- Whether INTERSECT ALL and EXCEPT ALL exist. -/
def setOpAll (d : Dialect) : Bool := d != mysql && d != sqlite

/-- Whether a branch of a set operation may stand in parentheses. -/
def parenthesizedBranches (d : Dialect) : Bool := d != sqlite

/-- Whether a DELIMITER line changes the statement delimiter. -/
def delimiterCommand (d : Dialect) : Bool := d = mysql

/-- Whether CREATE of a routine opens a block at its AS or IS. -/
def createOpensBlock (d : Dialect) : Bool := d = oracle

/-- How a truth value is written. -/
def booleanLiteral (d : Dialect) (value : Bool) : String :=
  if d = sqlite || d = oracle then (if value then "1" else "0")
  else if value then "TRUE" else "FALSE"

/-- Words that need delimiters as identifiers in every dialect. -/
def reservedWords : List String :=
  [ "ALL", "ALTER", "AND", "ANY", "AS", "ASC", "BEGIN", "BETWEEN", "BOTH", "BY", "CASE", "CAST",
    "CHECK", "COLLATE", "COLUMN", "COMMIT", "CONSTRAINT", "CREATE", "CROSS", "CURRENT",
    "DEFAULT", "DELETE", "DESC", "DISTINCT", "DROP", "ELSE", "END", "ESCAPE", "EXCEPT",
    "EXISTS", "FALSE", "FETCH", "FOR", "FOREIGN", "FROM", "FULL", "GRANT", "GROUP", "HAVING",
    "ILIKE", "IN", "INDEX", "INNER", "INSERT", "INTERSECT", "INTO", "IS", "ISNULL", "JOIN",
    "LEADING", "LEFT", "LIKE", "LIMIT", "NATURAL", "NOT", "NOTNULL", "NULL", "OFFSET", "ON",
    "OR", "ORDER", "OUTER", "PRIMARY", "REFERENCES", "RETURNING", "REVOKE", "RIGHT", "ROLLBACK",
    "SELECT", "SET", "SIMILAR", "SOME", "TABLE", "THEN", "TO", "TRAILING", "TRUE", "UNION",
    "UNIQUE", "UPDATE", "USING", "VALUES", "VIEW", "WHEN", "WHERE", "WITH" ]

/-- Words that need delimiters in MySQL only. -/
def mysqlReservedWords : List String :=
  ["KEY", "KEYS", "DATABASE", "SCHEMA", "REPLACE", "REGEXP", "RLIKE", "DIV"]

/-- Whether the word, in any case, is reserved in every dialect. -/
def isReservedSqlWord (word : String) : Bool :=
  reservedWords.contains word.toUpper

/-- Whether the word, in any case, is reserved in this dialect. -/
def isReservedWord (d : Dialect) (word : String) : Bool :=
  isReservedSqlWord word || (d = mysql && mysqlReservedWords.contains word.toUpper)

/-- The text between two copies of `quote`, the copies inside it doubled. -/
def delimited (quote : Char) (text : List Char) : List Char :=
  quote :: text.flatMap (fun c => if c = quote then [quote, quote] else [c]) ++ [quote]

/-- The name as a delimited identifier. -/
def quoteName (d : Dialect) (name : String) : String :=
  String.ofList (delimited d.identifierQuote name.toList)

/-- Whether the text starts and ends with `quote`, which are two characters. -/
def between (quote : Char) (text : List Char) : Bool :=
  2 ≤ text.length && text.head? == some quote && text.getLast? == some quote

/-- Whether the name already stands between delimiters of this dialect. -/
def isDelimited (d : Dialect) (name : String) : Bool :=
  between '"' name.toList || (d.backtickIdentifiers && between '\x60' name.toList)

end Dialect

end BoundSql
