import BoundSql.Proofs.Tree.Mapped

/-!
# The trees of a statement

A statement holds expressions and queries of its own, `parts` and `queries`, as a query does. The
mapping of a statement maps these, and changes nothing if it changes none of them:
`map_eq_self`.
-/

namespace BoundSql

variable {f : Expr → Expr}

/-- The expressions among the rows of an INSERT. -/
def InsertSource.parts : InsertSource → List Expr
  | values rows => rows.flatten
  | query _ | defaultValues => []

/-- The query that an INSERT takes its rows from. -/
def InsertSource.queries : InsertSource → List Query
  | query q => [q]
  | values _ | defaultValues => []

namespace Body

/-- The expressions in the clauses of a statement, queries not entered. -/
def parts : Body → List Expr
  | select _ | compound _ | transaction _ | verbatim _ => []
  | insert i => i.source.parts
  | update u => u.assignments.map (·.value) ++ u.condition.toList
  | delete d => d.condition.toList

/-- The queries that stand directly below a statement, or the query that it is. -/
def queries : Body → List Query
  | select s => [.select s]
  | compound c => [.compound c]
  | insert i => i.source.queries
  | update _ | delete _ | transaction _ | verbatim _ => []

/-- `Q` holds of every query in a statement. -/
def EveryQuery (Q : Query → Prop) (b : Body) : Prop :=
  (∀ e ∈ b.parts, e.Everywhere (fun _ => True) Q) ∧
    ∀ q ∈ b.queries, q.Everywhere (fun _ => True) Q

/-- What holds of every query can be weakened. -/
theorem EveryQuery.mono {Q Q' : Query → Prop} {b : Body} (hQ : ∀ q, Q q → Q' q)
    (h : b.EveryQuery Q) : b.EveryQuery Q' :=
  ⟨fun e he => (h.1 e he).mono (fun _ => id) hQ, fun q hq => (h.2 q hq).mono (fun _ => id) hQ⟩

/-- What holds of all queries holds of every query in a statement. -/
theorem everyQuery_of_forall {Q : Query → Prop} (hQ : ∀ q, Q q) (b : Body) : b.EveryQuery Q :=
  ⟨fun e _ => (everywhere_of_forall (fun _ => trivial) hQ).1 e,
    fun q _ => (everywhere_of_forall (fun _ => trivial) hQ).2 q⟩

end Body

/-- The rows with the functions applied to their expressions, or to the query that they are. -/
def InsertSource.map (g : Expr → Expr) (k : Query → Query) : InsertSource → InsertSource
  | values rows => values (rows.map (·.map g))
  | query q => query (k q)
  | defaultValues => defaultValues

namespace Body

/-- The statement with the functions applied to its own expressions and queries. -/
def mapParts (g : Expr → Expr) (k : Query → Query) : Body → Body
  | select s => ofQuery (k (.select s))
  | compound c => ofQuery (k (.compound c))
  | insert i => insert { i with source := i.source.map g k }
  | update u => update { u with
      assignments := u.assignments.map fun a => { a with value := g a.value }
      condition := u.condition.map g }
  | delete d => delete { d with condition := d.condition.map g }
  | other => other

section MapParts

variable {g g' : Expr → Expr} {k k' : Query → Query}

theorem parts_mapParts (b : Body) : (b.mapParts g k).parts = b.parts.map g := by
  have query (q : Query) : (ofQuery q).parts = [] := by cases q <;> rfl
  cases b with
  | select | compound => exact query _
  | insert i =>
    obtain ⟨table, columns, source, onConflict⟩ := i
    cases source with
    | values rows => exact List.map_flatten.symm
    | query | defaultValues => rfl
  | update u => simp only [mapParts, parts, List.map_append, List.map_map, Option.toList_map]; rfl
  | delete d => exact Option.toList_map
  | transaction | verbatim => rfl

theorem queries_mapParts (b : Body) : (b.mapParts g k).queries = b.queries.map k := by
  have query (q : Query) : (ofQuery q).queries = [q] := by cases q <;> rfl
  cases b with
  | select | compound => exact query _
  | insert i =>
    obtain ⟨table, columns, source, onConflict⟩ := i
    cases source <;> rfl
  | update | delete | transaction | verbatim => rfl

theorem mapParts_congr {b : Body} (hparts : ∀ x ∈ b.parts, g x = g' x)
    (hqueries : ∀ q ∈ b.queries, k q = k' q) : b.mapParts g k = b.mapParts g' k' := by
  have option {o : Option Expr} (h : ∀ x ∈ o.toList, g x = g' x) : o.map g = o.map g' :=
    Option.map_congr fun x hx => h x (Option.mem_toList.2 hx)
  cases b with
  | select | compound => exact congrArg ofQuery (hqueries _ (List.mem_singleton_self _))
  | insert i =>
    obtain ⟨table, columns, source, onConflict⟩ := i
    cases source with
    | values rows =>
      have same : rows.map (·.map g) = rows.map (·.map g') :=
        List.map_congr_left fun row hrow => List.map_congr_left fun x hx =>
          hparts x (List.mem_flatten.2 ⟨row, hrow, hx⟩)
      rw [mapParts, mapParts, InsertSource.map, InsertSource.map, same]
    | query q =>
      have same := hqueries q (List.mem_singleton_self q)
      rw [mapParts, mapParts, InsertSource.map, InsertSource.map, same]
    | defaultValues => rfl
  | update u =>
    simp only [parts, List.forall_mem_append] at hparts
    have values : (u.assignments.map fun a => { a with value := g a.value }) =
        u.assignments.map fun a => { a with value := g' a.value } :=
      List.map_congr_left fun a ha => by rw [hparts.1 a.value (List.mem_map.2 ⟨a, ha, rfl⟩)]
    rw [mapParts, mapParts, values, option hparts.2]
  | delete d => rw [mapParts, mapParts, option hparts]
  | transaction | verbatim => rfl

theorem mapParts_id (b : Body) : b.mapParts id id = b := by
  cases b with
  | insert i =>
    obtain ⟨table, columns, source, onConflict⟩ := i
    cases source with
    | values rows => simp [mapParts, InsertSource.map]
    | query | defaultValues => rfl
  | update u => simp [mapParts]
  | delete d => simp [mapParts]
  | select | compound | transaction | verbatim => rfl

end MapParts

/-- A statement is mapped by mapping its own expressions and queries. -/
theorem map_eq_mapParts (f : Expr → Expr) (b : Body) :
    b.map f = b.mapParts (Expr.mapped f) (Query.mapped f) := by
  cases b with
  | insert i =>
    obtain ⟨table, columns, source, onConflict⟩ := i
    cases source with
    | values rows =>
      have mapped : Id.run (rows.mapM (Expr.mapAllM fun x => pure (f x))) =
          rows.map (·.map (Expr.mapped f)) := by
        rw [List.idRun_mapM]
        exact List.map_congr_left fun row _ => Expr.mapAllM_eq_map row
      rw [mapParts, InsertSource.map, ← mapped]
      rfl
    | query | defaultValues => rfl
  | update u =>
    have assignments : Id.run (u.assignments.mapM (Assignment.mapM fun x => pure (f x))) =
        u.assignments.map fun a => { a with value := a.value.mapped f } := List.idRun_mapM
    rw [mapParts, ← assignments, ← Expr.mapOptionM_eq_map]
    rfl
  | delete d =>
    rw [mapParts, ← Expr.mapOptionM_eq_map]
    rfl
  | select | compound | transaction | verbatim => rfl

theorem map_update (u : Update) : (update u).map f = update { u with
    assignments := u.assignments.map fun a => { a with value := a.value.mapped f }
    condition := u.condition.map (Expr.mapped f) } := map_eq_mapParts f (update u)

/-- Two functions that map the expressions and queries of a statement in the same way map the
statement in the same way. -/
theorem map_congr {f' : Expr → Expr} {b : Body} (hparts : ∀ x ∈ b.parts, x.mapped f = x.mapped f')
    (hqueries : ∀ q ∈ b.queries, q.mapped f = q.mapped f') : b.map f = b.map f' := by
  rw [map_eq_mapParts, map_eq_mapParts, mapParts_congr hparts hqueries]

/-- A statement whose expressions and queries are left as they are is left as it is. -/
theorem map_eq_self {b : Body} (hparts : ∀ x ∈ b.parts, x.mapped f = x)
    (hqueries : ∀ q ∈ b.queries, q.mapped f = q) : b.map f = b := by
  have same : b.mapParts (Expr.mapped f) (Query.mapped f) = b.mapParts id id :=
    mapParts_congr hparts hqueries
  rw [map_eq_mapParts, same, mapParts_id]

/-- The expressions of a statement are mapped one by one. -/
theorem parts_map (b : Body) : (b.map f).parts = b.parts.map (Expr.mapped f) := by
  rw [map_eq_mapParts, parts_mapParts]

/-- The queries of a statement are mapped one by one. -/
theorem queries_map (b : Body) : (b.map f).queries = b.queries.map (Query.mapped f) := by
  rw [map_eq_mapParts, queries_mapParts]

end Body

end BoundSql
