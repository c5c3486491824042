import BoundSql.Tree.Rebuild

/-!
# Rebuilding one level

The top-level expressions of a query or a statement and the children of an expression are passed
through a function, in order and without what stands below them: `Query.mapRootsM`,
`Body.mapRootsM`, `Expr.mapChildrenM`. To rebuild a tree is to do so on every level, the lowest
first.
-/

namespace BoundSql

section Definitions

variable {m : Type → Type} [Monad m]

/-- Rebuilds a result column. -/
def Column.mapM (g : Expr → m Expr) (c : Column) : m Column := do
  return { c with expr := ← g c.expr }

/-- Rebuilds a sort key. -/
def OrderItem.mapM (g : Expr → m Expr) (o : OrderItem) : m OrderItem := do
  return { o with expr := ← g o.expr }

/-- Rebuilds the condition of a join. -/
def JoinCondition.mapM (g : Expr → m Expr) : JoinCondition → m JoinCondition
  | predicate e => do return predicate (← g e)
  | condition => pure condition

/-- Rebuilds a join. -/
def Join.mapM (g : Expr → m Expr) (j : Join) : m Join := do
  return { j with condition := ← j.condition.mapM g }

/-- Rebuilds a condition and its result. -/
def Expr.mapArmM (g : Expr → m Expr) (arm : Expr × Expr) : m (Expr × Expr) := do
  return (← g arm.1, ← g arm.2)

mutual

/-- Passes the top-level expressions of a query through a function. -/
def Query.mapRootsM (g : Expr → m Expr) : Query → m Query
  | .select s => do return .select (← s.mapRootsM g)
  | .compound c => do return .compound (← c.mapRootsM g)

/-- Passes the top-level expressions of a SELECT through a function. -/
def Select.mapRootsM (g : Expr → m Expr) : Select → m Select
  | ⟨distinct, distinctOn, columns, source, condition, groupBy, having, orderBy, limit,
      offset⟩ => do
    let distinctOn ← distinctOn.mapM g
    let columns ← columns.mapM (Column.mapM g)
    let source ← FromClause.mapRootsOptionM g source
    let condition ← condition.mapM g
    let groupBy ← groupBy.mapM g
    let having ← having.mapM g
    let orderBy ← orderBy.mapM (OrderItem.mapM g)
    let limit ← limit.mapM g
    let offset ← offset.mapM g
    return ⟨distinct, distinctOn, columns, source, condition, groupBy, having, orderBy, limit,
      offset⟩

/-- Passes the top-level expressions of a compound through a function. -/
def Compound.mapRootsM (g : Expr → m Expr) : Compound → m Compound
  | ⟨op, branches, orderBy, limit, offset⟩ => do
    let branches ← Query.mapRootsAllM g branches
    let orderBy ← orderBy.mapM (OrderItem.mapM g)
    let limit ← limit.mapM g
    let offset ← offset.mapM g
    return ⟨op, branches, orderBy, limit, offset⟩

/-- Passes the top-level expressions of queries in a row through a function. -/
def Query.mapRootsAllM (g : Expr → m Expr) : List Query → m (List Query)
  | [] => pure []
  | q :: qs => do
    let q ← q.mapRootsM g
    return q :: (← Query.mapRootsAllM g qs)

/-- Passes the top-level expressions of a FROM that may be missing through a function. -/
def FromClause.mapRootsOptionM (g : Expr → m Expr) : Option FromClause → m (Option FromClause)
  | none => pure none
  | some c => some <$> c.mapRootsM g

/-- Passes the top-level expressions of a FROM through a function: those of its targets, then the
conditions of its joins. -/
def FromClause.mapRootsM (g : Expr → m Expr) : FromClause → m FromClause
  | ⟨targets, joins⟩ => do
    let targets ← Target.mapRootsAllM g targets
    return ⟨targets, ← joins.mapM (Join.mapM g)⟩

/-- Passes the top-level expressions of targets through a function. -/
def Target.mapRootsAllM (g : Expr → m Expr) : List Target → m (List Target)
  | [] => pure []
  | ⟨.table i, label⟩ :: ts => do return ⟨.table i, label⟩ :: (← Target.mapRootsAllM g ts)
  | ⟨.subquery q, label⟩ :: ts => do
    let q ← q.mapRootsM g
    return ⟨.subquery q, label⟩ :: (← Target.mapRootsAllM g ts)

end

/-- Passes the children of an expression through a function. -/
def Expr.mapChildrenM (g : Expr → m Expr) : Expr → m Expr
  | call function distinct args => do return call function distinct (← args.mapM g)
  | operation op operands => do return operation op (← operands.mapM g)
  | subquery q => do return subquery (← q.mapRootsM g)
  | cases base arms otherwise => do
    let base ← base.mapM g
    let arms ← arms.mapM (mapArmM g)
    return cases base arms (← otherwise.mapM g)
  | cast e t => do return cast (← g e) t
  | e => pure e

/-- Passes the top-level expressions of an INSERT through a function. -/
def InsertSource.mapRootsM (g : Expr → m Expr) : InsertSource → m InsertSource
  | values rows => do return values (← rows.mapM fun row => row.mapM g)
  | query q => do return query (← q.mapRootsM g)
  | defaultValues => pure defaultValues

/-- Passes the new value of a column through a function. -/
def Assignment.mapRootM (g : Expr → m Expr) (a : Assignment) : m Assignment := do
  return { a with value := ← g a.value }

/-- Passes the top-level expressions of a statement through a function. -/
def Body.mapRootsM (g : Expr → m Expr) : Body → m Body
  | select s => do return select (← s.mapRootsM g)
  | compound c => do return compound (← c.mapRootsM g)
  | insert i => do return insert { i with source := ← i.source.mapRootsM g }
  | update u => do
    let assignments ← u.assignments.mapM (Assignment.mapRootM g)
    return update { u with assignments, condition := ← u.condition.mapM g }
  | delete d => do return delete { d with condition := ← d.condition.mapM g }
  | other => pure other

end Definitions

/-! ## One level after the other -/

section Levels

variable {m : Type → Type} [Monad m] {f : Expr → m Expr}

theorem Expr.mapOptionM_eq_mapM (o : Option Expr) : mapOptionM f o = o.mapM (Expr.mapM f) := by
  cases o <;> rfl

theorem Expr.mapAllM_eq_mapM [LawfulMonad m] (es : List Expr) :
    mapAllM f es = es.mapM (Expr.mapM f) := by
  induction es with
  | nil => rfl
  | cons e es ih => rw [mapAllM, ih, List.mapM_cons]

theorem Expr.mapArmsM_eq_mapM [LawfulMonad m] (arms : List (Expr × Expr)) :
    mapArmsM f arms = arms.mapM (mapArmM (Expr.mapM f)) := by
  induction arms with
  | nil => rfl
  | cons arm arms ih =>
    rw [mapArmsM, ih, List.mapM_cons]
    simp [mapArmM]

theorem Column.mapAllM_eq_mapM [LawfulMonad m] (cs : List Column) :
    mapAllM f cs = cs.mapM (Column.mapM (Expr.mapM f)) := by
  induction cs with
  | nil => rfl
  | cons c cs ih =>
    obtain ⟨e, label⟩ := c
    simp [mapAllM, Column.mapM, ih]

theorem OrderItem.mapAllM_eq_mapM [LawfulMonad m] (os : List OrderItem) :
    mapAllM f os = os.mapM (OrderItem.mapM (Expr.mapM f)) := by
  induction os with
  | nil => rfl
  | cons o os ih =>
    obtain ⟨e, order, collation⟩ := o
    simp [mapAllM, OrderItem.mapM, ih]

theorem Join.mapAllM_eq_mapM [LawfulMonad m] (js : List Join) :
    mapAllM f js = js.mapM (Join.mapM (Expr.mapM f)) := by
  induction js with
  | nil => rfl
  | cons j js ih =>
    obtain ⟨kind, position, condition⟩ := j
    cases condition <;> simp [mapAllM, Join.mapM, JoinCondition.mapM, ih]

mutual

/-- A query is rebuilt by rebuilding its top-level expressions. -/
theorem Query.mapM_eq_mapRootsM [LawfulMonad m] : ∀ q : Query, q.mapM f = q.mapRootsM (Expr.mapM f)
  | .select s => by rw [Query.mapM, Query.mapRootsM, Select.mapM_eq_mapRootsM]
  | .compound c => by rw [Query.mapM, Query.mapRootsM, Compound.mapM_eq_mapRootsM]

/-- A SELECT is rebuilt by rebuilding its top-level expressions. -/
theorem Select.mapM_eq_mapRootsM [LawfulMonad m] :
    ∀ s : Select, s.mapM f = s.mapRootsM (Expr.mapM f)
  | ⟨distinct, distinctOn, columns, source, condition, groupBy, having, orderBy, limit,
      offset⟩ => by
    simp only [Select.mapM, Select.mapRootsM, Expr.mapOptionM_eq_mapM, Expr.mapAllM_eq_mapM,
      Column.mapAllM_eq_mapM, OrderItem.mapAllM_eq_mapM, FromClause.mapOptionM_eq_mapRootsM]

/-- A compound is rebuilt by rebuilding its top-level expressions. -/
theorem Compound.mapM_eq_mapRootsM [LawfulMonad m] :
    ∀ c : Compound, c.mapM f = c.mapRootsM (Expr.mapM f)
  | ⟨op, branches, orderBy, limit, offset⟩ => by
    simp only [Compound.mapM, Compound.mapRootsM, Expr.mapOptionM_eq_mapM,
      OrderItem.mapAllM_eq_mapM, Query.mapAllM_eq_mapRootsAllM]

theorem Query.mapAllM_eq_mapRootsAllM [LawfulMonad m] :
    ∀ qs : List Query, Query.mapAllM f qs = Query.mapRootsAllM (Expr.mapM f) qs
  | [] => rfl
  | q :: qs => by
    rw [Query.mapAllM, Query.mapRootsAllM, Query.mapM_eq_mapRootsM, Query.mapAllM_eq_mapRootsAllM]

theorem FromClause.mapOptionM_eq_mapRootsM [LawfulMonad m] : ∀ o : Option FromClause,
    FromClause.mapOptionM f o = FromClause.mapRootsOptionM (Expr.mapM f) o
  | none => rfl
  | some c => by
    rw [FromClause.mapOptionM, FromClause.mapRootsOptionM, FromClause.mapM_eq_mapRootsM]

theorem FromClause.mapM_eq_mapRootsM [LawfulMonad m] :
    ∀ c : FromClause, c.mapM f = c.mapRootsM (Expr.mapM f)
  | ⟨targets, joins⟩ => by
    rw [FromClause.mapM, FromClause.mapRootsM, Target.mapAllM_eq_mapRootsAllM,
      Join.mapAllM_eq_mapM]

theorem Target.mapAllM_eq_mapRootsAllM [LawfulMonad m] :
    ∀ ts : List Target, Target.mapAllM f ts = Target.mapRootsAllM (Expr.mapM f) ts
  | [] => rfl
  | ⟨.table i, label⟩ :: ts => by
    rw [Target.mapAllM, Target.mapRootsAllM, Target.mapAllM_eq_mapRootsAllM]
  | ⟨.subquery q, label⟩ :: ts => by
    rw [Target.mapAllM, Target.mapRootsAllM, Query.mapM_eq_mapRootsM,
      Target.mapAllM_eq_mapRootsAllM]

end

/-- An expression is rebuilt by rebuilding its children and calling the function last. -/
theorem Expr.mapM_eq_mapChildrenM [LawfulMonad m] (e : Expr) :
    e.mapM f = e.mapChildrenM (Expr.mapM f) >>= f := by
  cases e <;> simp [Expr.mapM, mapChildrenM, mapAllM_eq_mapM, mapArmsM_eq_mapM,
    mapOptionM_eq_mapM, Query.mapM_eq_mapRootsM]

/-- A statement is rebuilt by rebuilding its top-level expressions. -/
theorem Body.mapM_eq_mapRootsM [LawfulMonad m] (b : Body) :
    b.mapM f = b.mapRootsM (Expr.mapM f) := by
  cases b with
  | insert i =>
    obtain ⟨table, columns, source, onConflict⟩ := i
    cases source with
    | values rows =>
      rw [Body.mapM, mapRootsM, InsertSource.mapM, InsertSource.mapRootsM,
        funext Expr.mapAllM_eq_mapM]
    | query q =>
      rw [Body.mapM, mapRootsM, InsertSource.mapM, InsertSource.mapRootsM, q.mapM_eq_mapRootsM]
    | defaultValues => rfl
  | update u =>
    rw [Body.mapM, mapRootsM, Expr.mapOptionM_eq_mapM]
    rfl
  | delete d => rw [Body.mapM, mapRootsM, Expr.mapOptionM_eq_mapM]
  | select s => rw [Body.mapM, mapRootsM, Select.mapM_eq_mapRootsM]
  | compound c => rw [Body.mapM, mapRootsM, Compound.mapM_eq_mapRootsM]
  | transaction | verbatim => rfl

end Levels

end BoundSql
