import BoundSql.Render.Expression
import BoundSql.Tree.Statement

/-!
# Writing statements

`Statement.write` is the text of a statement in a dialect, with the names of the parameters written
in it.
-/

namespace BoundSql

open Phrase

namespace RenderContext

/-- The words in front of the table of an INSERT. -/
def insertWords (d : Dialect) : Option String → List String
  | none => ["INSERT", "INTO"]
  | some action =>
    if d = .mysql && action.toUpper = "REPLACE" then ["REPLACE", "INTO"]
    else if d = .mysql && action.toUpper = "IGNORE" then ["INSERT", "IGNORE", "INTO"]
    else ["INSERT", "OR", action.toUpper, "INTO"]

/-- Writes the rows of an INSERT. -/
def insertSource (r : RenderContext) : InsertSource → Render Phrase
  | .values rows => do
    let rows ← rows.mapM fun row => do return parens (commas (← Expr.renderAll r row))
    return [.text "VALUES", .blank] ++ commas rows
  | .query q => q.render r
  | .defaultValues => return words ["DEFAULT", "VALUES"]

/-- Writes an INSERT. -/
def insert (r : RenderContext) (i : Insert) : Render Phrase := do
  let columns :=
    if i.columns.isEmpty then []
    else .blank :: parens (commas (i.columns.map fun c => [r.name c]))
  return words (insertWords r.dialect i.onConflict) ++ .blank :: r.qualified i.table ++ columns ++
    .clause :: (← r.insertSource i.source)

/-- The words in front of the table of an UPDATE. -/
def updateWords (r : RenderContext) : Option String → Except SqlError (List String)
  | none => .ok ["UPDATE"]
  | some action =>
    if r.dialect = .mysql then
      if action.toUpper = "IGNORE" then .ok ["UPDATE", "IGNORE"]
      else r.unsupported ("UPDATE OR " ++ action)
    else .ok ["UPDATE", "OR", action.toUpper]

/-- Writes the new value of a column. -/
def assignment (r : RenderContext) (a : Assignment) : Render Phrase := do
  return [r.name a.column, .blank, .text "=", .blank] ++ (← a.value.render r)

/-- Writes a condition, if there is one. -/
def condition (r : RenderContext) : Option Expr → Render Phrase
  | none => return []
  | some e => do return clause ["WHERE"] (← e.render r)

/-- Writes an UPDATE. -/
def update (r : RenderContext) (u : Update) : Render Phrase := do
  let ws ← r.updateWords u.onConflict
  let assignments ← u.assignments.mapM r.assignment
  return words ws ++ .blank :: r.qualified u.table ++ clause ["SET"] (commas assignments) ++
    (← r.condition u.condition)

/-- Writes a DELETE. -/
def delete (r : RenderContext) (d : Delete) : Render Phrase := do
  return words ["DELETE", "FROM"] ++ .blank :: r.qualified d.table ++ (← r.condition d.condition)

/-- The words that begin a transaction. -/
def beginWords (r : RenderContext) (t : Transaction) : Except SqlError (List String) := do
  let locking := match t.mode with | some m => m.isLocking | none => false
  if r.dialect = .mysql && t.isolation.isSome then
    r.unsupported "START TRANSACTION ISOLATION LEVEL"
  else if locking && r.dialect != .sqlite then
    r.unsupported "BEGIN DEFERRED/IMMEDIATE/EXCLUSIVE"
  else
    match r.dialect with
    | .mysql => return ["START", "TRANSACTION"]
    | .oracle => return ["SET", "TRANSACTION"]
    | _ =>
      return ["BEGIN"] ++ (if locking then (t.mode.map (·.sql)).toList else []) ++ ["TRANSACTION"]

/-- BEGIN with its options. Only SQLite names transactions. -/
def beginPhrase (r : RenderContext) (t : Transaction) : Except SqlError Phrase := do
  let ws ← r.beginWords t
  let name := match t.name with
    | some n => if r.dialect = .sqlite then [.blank, r.name n] else []
    | none => []
  let isolation := match t.isolation with
    | some level => .blank :: words ["ISOLATION", "LEVEL", level.sql]
    | none => []
  let mode := match t.mode with
    | some m => if m.isLocking then [] else [.blank, .text m.sql]
    | none => []
  return words ws ++ name ++ isolation ++ mode

/-- A command with the name that it needs. -/
def savepoint (r : RenderContext) (t : Transaction) (ws : List String) : Except SqlError Phrase :=
  match t.name with
  | some n => .ok (words ws ++ [.blank, r.name n])
  | none => .error (.render (.unnamed t.kind))

/-- A command with its name, if it has one. -/
def named (r : RenderContext) (t : Transaction) (command : String) : Phrase :=
  match t.name with
  | some n => [.text command, .blank, r.name n]
  | none => [.text command]

/-- A command about transactions. -/
def transaction (r : RenderContext) (t : Transaction) : Except SqlError Phrase :=
  match t.kind with
  | .begin => r.beginPhrase t
  | .commit => .ok (r.named t "COMMIT")
  | .rollback => .ok (r.named t "ROLLBACK")
  | .savepoint => r.savepoint t ["SAVEPOINT"]
  | .rollbackSavepoint => r.savepoint t ["ROLLBACK", "TO", "SAVEPOINT"]
  | .releaseSavepoint => r.savepoint t ["RELEASE", "SAVEPOINT"]

/-- Writes a piece of a statement that is kept as text. -/
def fragment (r : RenderContext) : Fragment → Render Phrase
  | .text t => return [.text t]
  | .param p => r.param p

/-- Writes the tree of a statement. -/
def body (r : RenderContext) : Body → Render Phrase
  | .select s => s.render r
  | .compound c => c.render r
  | .insert i => r.insert i
  | .update u => r.update u
  | .delete d => r.delete d
  | .transaction t => r.transaction t
  | .verbatim parts => do return (← parts.mapM r.fragment).flatten

end RenderContext

/-- The text of a statement in a dialect, and the names of the parameters written, in order. After a
failure these are the parameters written before it. -/
def Statement.write (s : Statement) (values : Bindings) (settings : RenderSettings) (d : Dialect) :
    Except SqlError String × List String :=
  let r : RenderContext := { dialect := d, settings, params := s.params, values }
  let (phrase, used) := Render.start (r.body s.body)
  (phrase.map fun p => String.ofList (p.write settings.pretty), used)

end BoundSql
