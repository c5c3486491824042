import BoundSql.Tree.Statement

/-!
# Rebuilding a statement

`Body.mapM` passes every expression through a function, after everything below it, and puts the
results in the places of the expressions.
-/

namespace BoundSql

variable {m : Type → Type} [Monad m]

mutual

/-- Rebuilds an expression, itself last. -/
def Expr.mapM (f : Expr → m Expr) : Expr → m Expr
  | .literal l => f (.literal l)
  | .name i => f (.name i)
  | .param p => f (.param p)
  | .wildcard t => f (.wildcard t)
  | .call name distinct args => do f (.call name distinct (← Expr.mapAllM f args))
  | .operation op operands => do f (.operation op (← Expr.mapAllM f operands))
  | .subquery q => do f (.subquery (← q.mapM f))
  | .cases base arms otherwise => do
    let base ← Expr.mapOptionM f base
    let arms ← Expr.mapArmsM f arms
    let otherwise ← Expr.mapOptionM f otherwise
    f (.cases base arms otherwise)
  | .cast e t => do f (.cast (← e.mapM f) t)

/-- Rebuilds an expression that may be missing. -/
def Expr.mapOptionM (f : Expr → m Expr) : Option Expr → m (Option Expr)
  | none => pure none
  | some e => some <$> e.mapM f

/-- Rebuilds expressions in a row. -/
def Expr.mapAllM (f : Expr → m Expr) : List Expr → m (List Expr)
  | [] => pure []
  | e :: es => do
    let e ← e.mapM f
    return e :: (← Expr.mapAllM f es)

/-- Rebuilds conditions and results. -/
def Expr.mapArmsM (f : Expr → m Expr) : List (Expr × Expr) → m (List (Expr × Expr))
  | [] => pure []
  | (w, t) :: arms => do
    let w ← w.mapM f
    let t ← t.mapM f
    return (w, t) :: (← Expr.mapArmsM f arms)

/-- Rebuilds a query. -/
def Query.mapM (f : Expr → m Expr) : Query → m Query
  | .select s => do return .select (← s.mapM f)
  | .compound c => do return .compound (← c.mapM f)

/-- Rebuilds a SELECT, its clauses in source order. -/
def Select.mapM (f : Expr → m Expr) : Select → m Select
  | ⟨distinct, distinctOn, columns, source, condition, groupBy, having, orderBy, limit, offset⟩ => do
    let distinctOn ← Expr.mapOptionM f distinctOn
    let columns ← Column.mapAllM f columns
    let source ← FromClause.mapOptionM f source
    let condition ← Expr.mapOptionM f condition
    let groupBy ← Expr.mapAllM f groupBy
    let having ← Expr.mapOptionM f having
    let orderBy ← OrderItem.mapAllM f orderBy
    let limit ← Expr.mapOptionM f limit
    let offset ← Expr.mapOptionM f offset
    return ⟨distinct, distinctOn, columns, source, condition, groupBy, having, orderBy, limit, offset⟩

/-- Rebuilds a compound: its branches, then its bounding clauses. -/
def Compound.mapM (f : Expr → m Expr) : Compound → m Compound
  | ⟨op, branches, orderBy, limit, offset⟩ => do
    let branches ← Query.mapAllM f branches
    let orderBy ← OrderItem.mapAllM f orderBy
    let limit ← Expr.mapOptionM f limit
    let offset ← Expr.mapOptionM f offset
    return ⟨op, branches, orderBy, limit, offset⟩

/-- Rebuilds result columns. -/
def Column.mapAllM (f : Expr → m Expr) : List Column → m (List Column)
  | [] => pure []
  | ⟨e, label⟩ :: cs => do
    let e ← e.mapM f
    return ⟨e, label⟩ :: (← Column.mapAllM f cs)

/-- Rebuilds sort keys. -/
def OrderItem.mapAllM (f : Expr → m Expr) : List OrderItem → m (List OrderItem)
  | [] => pure []
  | ⟨e, order, collation⟩ :: os => do
    let e ← e.mapM f
    return ⟨e, order, collation⟩ :: (← OrderItem.mapAllM f os)

/-- Rebuilds queries in a row. -/
def Query.mapAllM (f : Expr → m Expr) : List Query → m (List Query)
  | [] => pure []
  | q :: qs => do
    let q ← q.mapM f
    return q :: (← Query.mapAllM f qs)

/-- Rebuilds a FROM that may be missing. -/
def FromClause.mapOptionM (f : Expr → m Expr) : Option FromClause → m (Option FromClause)
  | none => pure none
  | some c => some <$> c.mapM f

/-- Rebuilds a FROM: its targets, then its joins. -/
def FromClause.mapM (f : Expr → m Expr) : FromClause → m FromClause
  | ⟨targets, joins⟩ => do
    let targets ← Target.mapAllM f targets
    return ⟨targets, ← Join.mapAllM f joins⟩

/-- Rebuilds targets. -/
def Target.mapAllM (f : Expr → m Expr) : List Target → m (List Target)
  | [] => pure []
  | ⟨.table i, label⟩ :: ts => do return ⟨.table i, label⟩ :: (← Target.mapAllM f ts)
  | ⟨.subquery q, label⟩ :: ts => do
    let q ← q.mapM f
    return ⟨.subquery q, label⟩ :: (← Target.mapAllM f ts)

/-- Rebuilds joins. -/
def Join.mapAllM (f : Expr → m Expr) : List Join → m (List Join)
  | [] => pure []
  | ⟨kind, position, .none⟩ :: js => do return ⟨kind, position, .none⟩ :: (← Join.mapAllM f js)
  | ⟨kind, position, .predicate e⟩ :: js => do
    let e ← e.mapM f
    return ⟨kind, position, .predicate e⟩ :: (← Join.mapAllM f js)
  | ⟨kind, position, .columns names⟩ :: js => do
    return ⟨kind, position, .columns names⟩ :: (← Join.mapAllM f js)

end

/-- Rebuilds the rows of an INSERT. -/
def InsertSource.mapM (f : Expr → m Expr) : InsertSource → m InsertSource
  | .values rows => do return .values (← rows.mapM (Expr.mapAllM f))
  | .query q => do return .query (← q.mapM f)
  | .defaultValues => pure .defaultValues

/-- Rebuilds the new value of a column. -/
def Assignment.mapM (f : Expr → m Expr) (a : Assignment) : m Assignment := do
  return { a with value := ← a.value.mapM f }

namespace Body

/-- Rebuilds a statement, passing every expression through `f` after the expressions below it. -/
def mapM (f : Expr → m Expr) : Body → m Body
  | select s => do return select (← s.mapM f)
  | compound c => do return compound (← c.mapM f)
  | insert i => do return insert { i with source := ← i.source.mapM f }
  | update u => do
    let assignments ← u.assignments.mapM (Assignment.mapM f)
    return update { u with assignments, condition := ← Expr.mapOptionM f u.condition }
  | delete d => do return delete { d with condition := ← Expr.mapOptionM f d.condition }
  | transaction t => pure (transaction t)
  | verbatim parts => pure (verbatim parts)

/-- Rebuilds a statement by a plain function. -/
def map (f : Expr → Expr) (b : Body) : Body :=
  Id.run (b.mapM fun e => pure (f e))

end Body

end BoundSql
