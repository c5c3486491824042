import BoundSql.Error
import BoundSql.Tree.Node

/-!
# Structural rules

The rules about the shape of a statement that its types leave open. The first rule broken is
reported: those of the statement's own queries and rows first, then those of each expression in
source order.
-/

namespace BoundSql

/-- Fails unless the rule holds. -/
def require (holds : Bool) (v : Violation) : Except Violation Unit :=
  if holds then .ok () else .error v

/-- A join must refer to a target behind the first, and cross and natural joins have no
condition. -/
def Join.check (targets : Nat) : Join → Except Violation Unit
  | ⟨kind, position, condition⟩ => do
    require (0 < position && position < targets) (.joinPosition position targets)
    match condition with
    | .none => pure ()
    | _ => require (kind != .cross && kind != .natural) (.joinCondition kind)

mutual

/-- The rules about queries. -/
def Query.check : Query → Except Violation Unit
  | .select s => s.check
  | .compound c => c.check

/-- A SELECT has columns, and a FROM has targets that its joins refer to. -/
def Select.check : Select → Except Violation Unit
  | ⟨_, _, columns, source, _, _, _, _, _, _⟩ => do
    require (!columns.isEmpty) .noColumns
    match source with
    | none => pure ()
    | some ⟨targets, joins⟩ =>
      require (!targets.isEmpty) .noTargets
      Target.checkAll targets
      joins.forM (Join.check targets.length)

/-- The rules about the queries among targets. -/
def Target.checkAll : List Target → Except Violation Unit
  | [] => pure ()
  | ⟨.table _, _⟩ :: ts => Target.checkAll ts
  | ⟨.subquery q, _⟩ :: ts => do
    q.check
    Target.checkAll ts

/-- A compound has at least two branches, all with the same number of columns as far as the numbers
are known. -/
def Compound.check : Compound → Except Violation Unit
  | ⟨op, branches, _, _, _⟩ => do
    require (2 ≤ branches.length) (.fewBranches op branches.length)
    Query.checkBranches op none branches

/-- The rules about branches, the number of columns of those before them being given if it is
known. -/
def Query.checkBranches (op : SetOp) : Option Nat → List Query → Except Violation Unit
  | _, [] => pure ()
  | expected, q :: qs => do
    q.check
    match q.columnCount, expected with
    | none, _ => Query.checkBranches op expected qs
    | some n, none => Query.checkBranches op (some n) qs
    | some n, some first =>
      require (n == first) (.branchWidths op first n)
      Query.checkBranches op expected qs

end

/-- The rules about one expression, those below it left aside except for the query it holds. -/
def Expr.check : Expr → Except Violation Unit
  | .operation op operands =>
    require (op.acceptsOperands operands.length) (.operandCount op operands.length)
  | .cases _ arms _ => require (!arms.isEmpty) .noWhen
  | .subquery q => q.check
  | _ => pure ()

namespace Insert

/-- The rows of a VALUES clause, numbered from `n`, all have `width` values and at least one. -/
def checkRows (width : Nat) : Nat → List (List Expr) → Except Violation Unit
  | _, [] => pure ()
  | n, row :: rows => do
    require (!row.isEmpty && row.length == width) (.rowWidth n row.length width)
    checkRows width (n + 1) rows

/-- The rows fit the columns that are listed or, if none are, one another. -/
def check (i : Insert) : Except Violation Unit :=
  match i.source with
  | .values rows =>
    let width := if i.columns.isEmpty then (rows.headD []).length else i.columns.length
    checkRows width 1 rows
  | .query q => do
    q.check
    match q.columnCount with
    | some n => require (i.columns.isEmpty || n == i.columns.length) (.insertWidth i.columns.length n)
    | none => pure ()
  | .defaultValues => pure ()

end Insert

namespace Body

/-- The rules about the statement itself. -/
def checkTop : Body → Except Violation Unit
  | select s => s.check
  | compound c => c.check
  | insert i => i.check
  | update u => require (!u.assignments.isEmpty) .noAssignments
  | delete _ | transaction _ | verbatim _ => pure ()

/-- All rules about a statement. -/
def check (b : Body) : Except Violation Unit := do
  b.checkTop
  b.exprs.forM Expr.check

end Body

end BoundSql
