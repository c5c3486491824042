import BoundSql.Grammar.Query
import BoundSql.Tree.Statement

/-!
# The grammar of statements

The statements that are taken apart: queries, INSERT, UPDATE, DELETE and the commands about
transactions.
-/

namespace BoundSql.Grammar

open Parse

/-- The word behind OR in INSERT and UPDATE, if OR stands here. -/
def conflictClause : Parse (Option String) := afterWord .OR do
  match ← kind with
  | .keyword .ROLLBACK => advance; return "ROLLBACK"
  | .keyword .ABORT => advance; return "ABORT"
  | .keyword .REPLACE => advance; return "REPLACE"
  | .keyword .FAIL => advance; return "FAIL"
  | .keyword .IGNORE => advance; return "IGNORE"
  | _ => fail "ROLLBACK, ABORT, REPLACE, FAIL or IGNORE"

/-- The rows of an INSERT. -/
def insertSource (r : Nested) : Parse InsertSource := do
  match ← kind with
  | .keyword .VALUES => advance; .values <$> commaSep (parenthesized (expressions r))
  | .keyword .DEFAULT => advance; word .VALUES; return .defaultValues
  | .keyword .SELECT | .punct .leftParen => .query <$> r.query
  | _ => fail "VALUES, SELECT or DEFAULT VALUES"

/-- The columns of an INSERT. A parenthesis in front of SELECT opens a query instead. -/
def insertColumns : Parse (List String) := do
  if (← isAt (.punct .leftParen)) && (← nextKind) != .keyword .SELECT then
    parenthesized columnNames
  else return []

/-- INSERT or REPLACE. -/
def insert (r : Nested) : Parse Insert := do
  let onConflict ←
    if ← acceptWord .REPLACE then pure (some "REPLACE")
    else do word .INSERT; conflictClause
  word .INTO
  let table ← qualifiedName "table name"
  let columns ← insertColumns
  return { table, columns, source := ← insertSource r, onConflict }

/-- A column and its new value. -/
def assignment (r : Nested) : Parse Assignment := do
  let column ← qualifiedName "column name"
  sign .eq
  return { column := column.dotted, value := ← r.expr 0 }

/-- UPDATE. -/
def update (r : Nested) : Parse Update := do
  word .UPDATE
  let onConflict ← conflictClause
  let table ← qualifiedName "table name"
  word .SET
  let assignments ← commaSep (assignment r)
  return { table, onConflict, assignments, condition := ← whereClause r }

/-- DELETE. -/
def delete (r : Nested) : Parse Delete := do
  word .DELETE
  word .FROM
  let table ← qualifiedName "table name"
  return { table, condition := ← whereClause r }

/-- TRANSACTION and WORK say nothing. -/
def transactionWord : Parse Unit := do
  match ← kind with
  | .keyword .TRANSACTION | .keyword .WORK => advance
  | _ => pure ()

/-- The name of a transaction, if one stands here; ISOLATION and READ begin its options. -/
def transactionName : Parse (Option String) := do
  match ← kind with
  | .identifier _ => some <$> name "name"
  | .keyword k =>
    if k.isReserved || k = .ISOLATION || k = .READ then return none else some <$> name "name"
  | _ => return none

/-- An isolation level behind LEVEL. -/
def isolationLevel : Parse IsolationLevel := do
  match ← kind with
  | .keyword .SERIALIZABLE => advance; return .serializable
  | .keyword .REPEATABLE => advance; word .READ; return .repeatableRead
  | .keyword .READ =>
    advance
    match ← kind with
    | .keyword .COMMITTED => advance; return .readCommitted
    | .keyword .UNCOMMITTED => advance; return .readUncommitted
    | _ => fail "COMMITTED or UNCOMMITTED"
  | _ => fail "isolation level"

/-- The access mode behind READ. -/
def accessMode : Parse TransactionMode := do
  match ← kind with
  | .keyword .ONLY => advance; return .readOnly
  | .keyword .WRITE => advance; return .readWrite
  | _ => fail "ONLY or WRITE"

/-- One more option of a transaction, and the comma behind it. A later option of a kind replaces an
earlier one. -/
def transactionOption (t : Transaction) : Parse (Option Transaction) := do
  if ← acceptWord .ISOLATION then
    word .LEVEL
    let level ← isolationLevel
    let _ ← acceptSign .comma
    return some { t with isolation := some level }
  else if ← acceptWord .READ then
    let mode ← accessMode
    let _ ← acceptSign .comma
    return some { t with mode := some mode }
  else return none

/-- The locking mode behind BEGIN. -/
def lockingMode : Parse (Option TransactionMode) := do
  match ← kind with
  | .keyword .DEFERRED => advance; return some .deferred
  | .keyword .IMMEDIATE => advance; return some .immediate
  | .keyword .EXCLUSIVE => advance; return some .exclusive
  | _ => return none

/-- What stands behind BEGIN. -/
def beginTail : Parse Transaction := do
  let mode ← lockingMode
  transactionWord
  let name ← transactionName
  repeatStep transactionOption { kind := .begin, name, isolation := none, mode }

/-- What stands behind START. -/
def startTail : Parse Transaction := do
  word .TRANSACTION
  repeatStep transactionOption (.plain .begin)

/-- What stands behind COMMIT or END. -/
def commitTail : Parse Transaction := do
  transactionWord
  return .plain .commit (← transactionName)

/-- What stands behind ROLLBACK. -/
def rollbackTail : Parse Transaction := do
  transactionWord
  if ← acceptWord .TO then
    let _ ← acceptWord .SAVEPOINT
    return .plain .rollbackSavepoint (some (← name "savepoint name"))
  else return .plain .rollback (← transactionName)

/-- What stands behind SAVEPOINT. -/
def savepointTail : Parse Transaction := do
  return .plain .savepoint (some (← name "savepoint name"))

/-- What stands behind RELEASE. -/
def releaseTail : Parse Transaction := do
  let _ ← acceptWord .SAVEPOINT
  return .plain .releaseSavepoint (some (← name "savepoint name"))

/-- The tree of a statement, by its first token. -/
def body (r : Nested) : Parse Body := do
  match ← kind with
  | .keyword .SELECT | .punct .leftParen => .ofQuery <$> r.query
  | .keyword .INSERT | .keyword .REPLACE => .insert <$> insert r
  | .keyword .UPDATE => .update <$> update r
  | .keyword .DELETE => .delete <$> delete r
  | .keyword .BEGIN => advance; .transaction <$> beginTail
  | .keyword .START => advance; .transaction <$> startTail
  | .keyword .COMMIT | .keyword .END => advance; .transaction <$> commitTail
  | .keyword .ROLLBACK => advance; .transaction <$> rollbackTail
  | .keyword .SAVEPOINT => advance; .transaction <$> savepointTail
  | .keyword .RELEASE => advance; .transaction <$> releaseTail
  | _ => fail "statement"

/-- A statement, a delimiter behind it if there is one, and the end of the input. -/
def statement (limit : Nat) : Parse Body := do
  let b ← body (nested limit)
  let _ ← acceptSign .semicolon
  unless ← isAt .eof do fail "end of statement"
  return b

end BoundSql.Grammar

namespace BoundSql

/-- The tree of the one statement that the tokens are, nested at most `limit` levels deep. -/
def Body.ofTokens (limit : Nat) (tokens : List Token) : Except ParseError Body :=
  ((Grammar.statement limit).run (Cursor.ofTokens tokens)).map (·.1)

end BoundSql
