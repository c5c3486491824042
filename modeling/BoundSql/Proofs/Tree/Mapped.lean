import BoundSql.Proofs.Tree.Induction
import BoundSql.Tree.Rebuild

/-!
# Rebuilt trees

A function applied to every expression of a tree, from below, changes what stands directly below an
expression or a query and nothing else about it. What holds everywhere in a tree and does not depend
on what stands below still does afterwards: `everywhere_mapped`.
-/

namespace BoundSql

namespace Expr

variable {f : Expr → Expr}

/-- The expression with `f` applied to every expression in it, after those below it. -/
def mapped (f : Expr → Expr) (e : Expr) : Expr := Id.run (e.mapM fun x => pure (f x))

theorem mapAllM_eq_map (es : List Expr) :
    Id.run (Expr.mapAllM (fun x => pure (f x)) es) = es.map (mapped f) := by
  induction es with
  | nil => rfl
  | cons e es ih =>
    rw [List.map_cons, ← ih]
    rfl

theorem mapArmsM_eq_map (arms : List (Expr × Expr)) :
    Id.run (Expr.mapArmsM (fun x => pure (f x)) arms) =
      arms.map fun arm => (mapped f arm.1, mapped f arm.2) := by
  induction arms with
  | nil => rfl
  | cons arm arms ih =>
    rw [List.map_cons, ← ih]
    rfl

theorem mapOptionM_eq_map (o : Option Expr) :
    Id.run (Expr.mapOptionM (fun x => pure (f x)) o) = o.map (mapped f) := by
  cases o <;> rfl

theorem mapped_call (function : String) (distinct : Bool) (args : List Expr) :
    mapped f (call function distinct args) = f (call function distinct (args.map (mapped f))) := by
  rw [← mapAllM_eq_map]
  rfl

theorem mapped_operation (op : Operator) (operands : List Expr) :
    mapped f (operation op operands) = f (operation op (operands.map (mapped f))) := by
  rw [← mapAllM_eq_map]
  rfl

theorem mapped_cases (base otherwise : Option Expr) (arms : List (Expr × Expr)) :
    mapped f (cases base arms otherwise) = f (cases (base.map (mapped f))
      (arms.map fun arm => (mapped f arm.1, mapped f arm.2)) (otherwise.map (mapped f))) := by
  rw [← mapArmsM_eq_map, ← mapOptionM_eq_map, ← mapOptionM_eq_map]
  rfl

/-- The expression with the function applied to the expressions directly below it. -/
def mapParts (f : Expr → Expr) : Expr → Expr
  | call function distinct args => call function distinct (args.map f)
  | operation op operands => operation op (operands.map f)
  | cases base arms otherwise =>
    cases (base.map f) (arms.map fun arm => (f arm.1, f arm.2)) (otherwise.map f)
  | cast e type => cast (f e) type
  | e => e

theorem parts_mapParts (f : Expr → Expr) (e : Expr) : (e.mapParts f).parts = e.parts.map f := by
  cases e with
  | cases base arms otherwise =>
    cases base <;> cases otherwise <;>
      simp [mapParts, parts, List.map_flatMap, List.flatMap_map]
  | _ => rfl

theorem mapParts_congr {f g : Expr → Expr} {e : Expr} (h : ∀ x ∈ e.parts, f x = g x) :
    e.mapParts f = e.mapParts g := by
  cases e with
  | call function distinct args => exact congrArg _ (List.map_congr_left h)
  | operation op operands => exact congrArg _ (List.map_congr_left h)
  | cases base arms otherwise =>
    simp only [parts, List.mem_append, List.mem_flatMap, or_imp, forall_and] at h
    obtain ⟨⟨hbase, harms⟩, hotherwise⟩ := h
    have harms' : arms.map (fun arm => (f arm.1, f arm.2)) =
        arms.map fun arm => (g arm.1, g arm.2) := by
      refine List.map_congr_left fun arm harm => ?_
      rw [harms _ ⟨arm, harm, by simp⟩, harms _ ⟨arm, harm, by simp⟩]
    rw [mapParts, mapParts, harms', Option.map_congr fun x hx => hbase x (Option.mem_toList.2 hx),
      Option.map_congr fun x hx => hotherwise x (Option.mem_toList.2 hx)]
  | cast x type => rw [mapParts, mapParts, h x List.mem_cons_self]
  | _ => rfl

theorem mapParts_eq_self {f : Expr → Expr} {e : Expr} (h : ∀ x ∈ e.parts, f x = x) :
    e.mapParts f = e := by
  rw [mapParts_congr (g := id) h]
  cases e <;> simp [mapParts]

theorem mapped_eq (f : Expr → Expr) {e : Expr} (h : e.queries = []) :
    mapped f e = f (e.mapParts (mapped f)) := by
  cases e with
  | call => exact mapped_call ..
  | operation => exact mapped_operation ..
  | cases => exact mapped_cases ..
  | subquery => cases h
  | _ => rfl

end Expr

/-- The query with `f` applied to every expression in it, after those below it. -/
def Query.mapped (f : Expr → Expr) (q : Query) : Query := Id.run (q.mapM fun x => pure (f x))

variable {f : Expr → Expr}

theorem Expr.mapped_subquery (q : Query) : mapped f (subquery q) = f (subquery (q.mapped f)) := rfl

/-! ## Queries -/

/-- The column with the function applied to its expression. -/
def Column.map (g : Expr → Expr) (c : Column) : Column := { c with expr := g c.expr }

/-- The sort key with the function applied to its expression. -/
def OrderItem.map (g : Expr → Expr) (o : OrderItem) : OrderItem := { o with expr := g o.expr }

/-- The rows with the function applied to the query that they are read from, if they are. -/
def TableSource.map (k : Query → Query) : TableSource → TableSource
  | subquery q => subquery (k q)
  | rows => rows

/-- The condition with the function applied to its expression, if it has one. -/
def JoinCondition.map (g : Expr → Expr) : JoinCondition → JoinCondition
  | predicate e => predicate (g e)
  | condition => condition

/-- The FROM with the functions applied to the conditions of its joins and to its queries. -/
def FromClause.map (g : Expr → Expr) (k : Query → Query) (c : FromClause) : FromClause where
  targets := c.targets.map fun t => { t with rows := t.rows.map k }
  joins := c.joins.map fun j => { j with condition := j.condition.map g }

/-- The query with the functions applied to the expressions and the queries directly below it. -/
def Query.mapParts (g : Expr → Expr) (k : Query → Query) : Query → Query
  | select s => select { s with
      distinctOn := s.distinctOn.map g
      columns := s.columns.map (Column.map g)
      source := s.source.map (FromClause.map g k)
      condition := s.condition.map g
      groupBy := s.groupBy.map g
      having := s.having.map g
      orderBy := s.orderBy.map (OrderItem.map g)
      limit := s.limit.map g
      offset := s.offset.map g }
  | compound c => compound { c with
      branches := c.branches.map k
      orderBy := c.orderBy.map (OrderItem.map g)
      limit := c.limit.map g
      offset := c.offset.map g }

section MapParts

variable {g g' : Expr → Expr} {k k' : Query → Query}

theorem FromClause.parts_map (c : FromClause) : (c.map g k).parts = c.parts.map g := by
  obtain ⟨targets, joins⟩ := c
  rw [parts, map, List.filterMap_map, parts, List.map_filterMap]
  refine congrArg (List.filterMap · joins) (funext fun j => ?_)
  obtain ⟨kind, position, condition⟩ := j
  cases condition <;> rfl

theorem FromClause.queries_map (c : FromClause) : (c.map g k).queries = c.queries.map k := by
  obtain ⟨targets, joins⟩ := c
  rw [queries, map, List.filterMap_map, queries, List.map_filterMap]
  refine congrArg (List.filterMap · targets) (funext fun t => ?_)
  obtain ⟨rows, label⟩ := t
  cases rows <;> rfl

theorem Query.parts_mapParts (q : Query) : (q.mapParts g k).parts = q.parts.map g := by
  cases q with
  | select s =>
    have source : (((s.source.map (FromClause.map g k)).map (·.parts)).getD []) =
        ((s.source.map (·.parts)).getD []).map g := by
      cases s.source with
      | none => rfl
      | some c => exact c.parts_map
    simp only [mapParts, parts, List.map_append, Option.toList_map, List.map_map, source]
    rfl
  | compound c =>
    simp only [mapParts, parts, List.map_append, Option.toList_map, List.map_map]
    rfl

theorem Query.queries_mapParts (q : Query) : (q.mapParts g k).queries = q.queries.map k := by
  cases q with
  | select s =>
    rw [mapParts, queries, queries]
    cases s.source with
    | none => rfl
    | some c => exact c.queries_map
  | compound c => rfl

theorem FromClause.map_congr {c : FromClause} (hparts : ∀ x ∈ c.parts, g x = g' x)
    (hqueries : ∀ q ∈ c.queries, k q = k' q) : c.map g k = c.map g' k' := by
  obtain ⟨targets, joins⟩ := c
  rw [map, map, FromClause.mk.injEq]
  refine ⟨List.map_congr_left fun t ht => ?_, List.map_congr_left fun j hj => ?_⟩
  · obtain ⟨rows, label⟩ := t
    cases rows with
    | table i => rfl
    | subquery q =>
      have same := hqueries q (List.mem_filterMap.2 ⟨_, ht, rfl⟩)
      rw [TableSource.map, TableSource.map, same]
  · obtain ⟨kind, position, condition⟩ := j
    cases condition with
    | predicate e =>
      have same := hparts e (List.mem_filterMap.2 ⟨_, hj, rfl⟩)
      rw [JoinCondition.map, JoinCondition.map, same]
    | none | columns => rfl

theorem Query.mapParts_congr {q : Query} (hparts : ∀ x ∈ q.parts, g x = g' x)
    (hqueries : ∀ q' ∈ q.queries, k q' = k' q') : q.mapParts g k = q.mapParts g' k' := by
  have option {o : Option Expr} (h : ∀ x ∈ o.toList, g x = g' x) : o.map g = o.map g' :=
    Option.map_congr fun x hx => h x (Option.mem_toList.2 hx)
  have columns {cs : List Column} (h : ∀ x ∈ cs.map (·.expr), g x = g' x) :
      cs.map (Column.map g) = cs.map (Column.map g') :=
    List.map_congr_left fun c hc => by
      rw [Column.map, Column.map, h c.expr (List.mem_map.2 ⟨c, hc, rfl⟩)]
  have order {os : List OrderItem} (h : ∀ x ∈ os.map (·.expr), g x = g' x) :
      os.map (OrderItem.map g) = os.map (OrderItem.map g') :=
    List.map_congr_left fun o ho => by
      rw [OrderItem.map, OrderItem.map, h o.expr (List.mem_map.2 ⟨o, ho, rfl⟩)]
  cases q with
  | select s =>
    simp only [parts, List.forall_mem_append] at hparts
    obtain ⟨⟨⟨⟨⟨⟨⟨⟨hon, hcolumns⟩, hsource⟩, hcondition⟩, hgroup⟩, hhaving⟩, horder⟩, hlimit⟩,
      hoffset⟩ := hparts
    have source : s.source.map (FromClause.map g k) = s.source.map (FromClause.map g' k') := by
      cases rows : s.source with
      | none => rfl
      | some c =>
        rw [queries, rows] at hqueries
        rw [rows] at hsource
        exact congrArg some (FromClause.map_congr hsource hqueries)
    rw [mapParts, mapParts, option hon, columns hcolumns, source, option hcondition,
      List.map_congr_left hgroup, option hhaving, order horder, option hlimit, option hoffset]
  | compound c =>
    simp only [parts, List.forall_mem_append] at hparts
    obtain ⟨⟨horder, hlimit⟩, hoffset⟩ := hparts
    have branches : c.branches.map k = c.branches.map k' := List.map_congr_left hqueries
    rw [mapParts, mapParts, branches, order horder, option hlimit, option hoffset]

theorem FromClause.map_id (c : FromClause) : c.map id id = c := by
  obtain ⟨targets, joins⟩ := c
  rw [map, FromClause.mk.injEq]
  refine ⟨(List.map_congr_left fun t _ => ?_).trans (List.map_id targets),
    (List.map_congr_left fun j _ => ?_).trans (List.map_id joins)⟩
  · obtain ⟨rows, label⟩ := t
    cases rows <;> rfl
  · obtain ⟨kind, position, condition⟩ := j
    cases condition <;> rfl

theorem Query.mapParts_id (q : Query) : q.mapParts id id = q := by
  have source (o : Option FromClause) : o.map (FromClause.map id id) = o := by
    cases o with
    | none => rfl
    | some c => exact congrArg some c.map_id
  have columns (cs : List Column) : cs.map (Column.map id) = cs := by
    refine (List.map_congr_left fun c _ => ?_).trans (List.map_id cs)
    cases c
    rfl
  have order (os : List OrderItem) : os.map (OrderItem.map id) = os := by
    refine (List.map_congr_left fun o _ => ?_).trans (List.map_id os)
    cases o
    rfl
  cases q with
  | select s =>
    cases s
    simp only [mapParts, Option.map_id, List.map_id, columns, source, order, id]
  | compound c =>
    cases c
    simp only [mapParts, Option.map_id, List.map_id, order, id]

end MapParts

theorem Column.mapAllM_eq_map (cs : List Column) :
    Id.run (Column.mapAllM (fun x => pure (f x)) cs) = cs.map (Column.map (Expr.mapped f)) := by
  induction cs with
  | nil => rfl
  | cons c cs ih =>
    obtain ⟨e, label⟩ := c
    exact congrArg (Column.mk (e.mapped f) label :: ·) ih

theorem OrderItem.mapAllM_eq_map (os : List OrderItem) :
    Id.run (OrderItem.mapAllM (fun x => pure (f x)) os) =
      os.map (OrderItem.map (Expr.mapped f)) := by
  induction os with
  | nil => rfl
  | cons o os ih =>
    obtain ⟨e, order, collation⟩ := o
    exact congrArg (OrderItem.mk (e.mapped f) order collation :: ·) ih

theorem Target.mapAllM_eq_map (ts : List Target) :
    Id.run (Target.mapAllM (fun x => pure (f x)) ts) =
      ts.map fun t => { t with rows := t.rows.map (Query.mapped f) } := by
  induction ts with
  | nil => rfl
  | cons t ts ih =>
    obtain ⟨rows, label⟩ := t
    cases rows <;> exact congrArg (_ :: ·) ih

theorem Join.mapAllM_eq_map (js : List Join) :
    Id.run (Join.mapAllM (fun x => pure (f x)) js) =
      js.map fun j => { j with condition := j.condition.map (Expr.mapped f) } := by
  induction js with
  | nil => rfl
  | cons j js ih =>
    obtain ⟨kind, position, condition⟩ := j
    cases condition <;> exact congrArg (_ :: ·) ih

theorem FromClause.mapOptionM_eq_map (o : Option FromClause) :
    Id.run (FromClause.mapOptionM (fun x => pure (f x)) o) =
      o.map (FromClause.map (Expr.mapped f) (Query.mapped f)) := by
  cases o with
  | none => rfl
  | some c =>
    obtain ⟨targets, joins⟩ := c
    rw [Option.map_some, map, ← Target.mapAllM_eq_map, ← Join.mapAllM_eq_map]
    rfl

theorem Query.mapAllM_eq_map (qs : List Query) :
    Id.run (Query.mapAllM (fun x => pure (f x)) qs) = qs.map (Query.mapped f) := by
  induction qs with
  | nil => rfl
  | cons q qs ih =>
    rw [List.map_cons, ← ih]
    rfl

/-- A query is mapped by mapping what stands directly below it. -/
theorem Query.mapped_eq_mapParts (f : Expr → Expr) (q : Query) :
    q.mapped f = q.mapParts (Expr.mapped f) (Query.mapped f) := by
  cases q with
  | select s =>
    obtain ⟨distinct, distinctOn, columns, source, condition, groupBy, having, orderBy, limit,
      offset⟩ := s
    simp only [mapParts, ← Expr.mapOptionM_eq_map, ← Column.mapAllM_eq_map,
      ← FromClause.mapOptionM_eq_map, ← Expr.mapAllM_eq_map, ← OrderItem.mapAllM_eq_map]
    rfl
  | compound c =>
    obtain ⟨op, branches, orderBy, limit, offset⟩ := c
    simp only [mapParts, ← Expr.mapOptionM_eq_map, ← Query.mapAllM_eq_map,
      ← OrderItem.mapAllM_eq_map]
    rfl

/-- The expressions below a query are mapped one by one. -/
theorem Query.parts_mapped (q : Query) : (q.mapped f).parts = q.parts.map (Expr.mapped f) := by
  rw [mapped_eq_mapParts, parts_mapParts]

/-- The queries below a query are mapped one by one. -/
theorem Query.queries_mapped (q : Query) :
    (q.mapped f).queries = q.queries.map (Query.mapped f) := by
  rw [mapped_eq_mapParts, queries_mapParts]

/-- Two functions that map what stands directly below a query in the same way map the query in the
same way. -/
theorem Query.mapped_congr {f' : Expr → Expr} {q : Query}
    (hparts : ∀ x ∈ q.parts, Expr.mapped f x = Expr.mapped f' x)
    (hqueries : ∀ q' ∈ q.queries, Query.mapped f q' = Query.mapped f' q') :
    q.mapped f = q.mapped f' := by
  rw [mapped_eq_mapParts, mapped_eq_mapParts, mapParts_congr hparts hqueries]

/-- The expression with the expressions and queries below it mapped. -/
def Expr.mapBelow (f : Expr → Expr) : Expr → Expr
  | subquery q => subquery (q.mapped f)
  | e => e.mapParts (mapped f)

theorem Expr.parts_mapBelow (e : Expr) : (e.mapBelow f).parts = e.parts.map (mapped f) := by
  cases e with
  | cases base arms otherwise => exact parts_mapParts (mapped f) (.cases base arms otherwise)
  | _ => rfl

theorem Expr.queries_mapBelow (e : Expr) :
    (e.mapBelow f).queries = e.queries.map (Query.mapped f) := by
  cases e <;> rfl

theorem Expr.mapped_eq_mapBelow (f : Expr → Expr) (e : Expr) : mapped f e = f (e.mapBelow f) := by
  cases e with
  | subquery q => exact mapped_subquery q
  | _ => exact mapped_eq f rfl

section Fixed

/-- A query with nothing directly below it that the mapping changes is not changed. -/
theorem Query.mapped_eq_self {q : Query} (hparts : ∀ x ∈ q.parts, Expr.mapped f x = x)
    (hqueries : ∀ q' ∈ q.queries, Query.mapped f q' = q') : q.mapped f = q := by
  have same : q.mapParts (Expr.mapped f) (Query.mapped f) = q.mapParts id id :=
    mapParts_congr hparts hqueries
  rw [mapped_eq_mapParts, same, mapParts_id]

/-- A tree in which the function changes no expression is not changed by the mapping. -/
theorem mapped_eq_self :
    (∀ e : Expr, e.Everywhere (fun x => f x = x) (fun _ => True) → e.mapped f = e) ∧
      ∀ q : Query, q.Everywhere (fun x => f x = x) (fun _ => True) → q.mapped f = q := by
  refine tree_induction (fun e hes hqs he => ?_) fun q hes hqs hq =>
    Query.mapped_eq_self (fun x hx => hes x hx (hq.parts x hx))
      fun q' hq' => hqs q' hq' (hq.queries q' hq')
  have below : e.mapBelow f = e := by
    cases e with
    | subquery q => exact congrArg Expr.subquery (hqs q (by simp [Expr.queries])
        (he.queries q (by simp [Expr.queries])))
    | _ => exact Expr.mapParts_eq_self fun x hx => hes x hx (he.parts x hx)
  rw [Expr.mapped_eq_mapBelow, below]
  exact he.here

/-- Nothing is left to change in a mapped tree, if the function has nothing left to do after one
application and puts nothing below an expression that did not stand there. -/
theorem everywhere_mapped_fixed (hf : ∀ e, f (f e) = f e)
    (hparts : ∀ e : Expr, ∀ x ∈ (f e).parts, x ∈ e.parts)
    (hqueries : ∀ e : Expr, ∀ q ∈ (f e).queries, q ∈ e.queries) :
    (∀ e : Expr, (e.mapped f).Everywhere (fun x => f x = x) fun _ => True) ∧
      ∀ q : Query, (q.mapped f).Everywhere (fun x => f x = x) fun _ => True := by
  refine tree_induction (fun e hes hqs => ?_) fun q hes hqs => ?_
  · rw [Expr.mapped_eq_mapBelow]
    refine ⟨hf _, fun x hx => ?_, fun q hq => ?_⟩
    · have hx := hparts _ x hx
      rw [e.parts_mapBelow] at hx
      obtain ⟨y, hy, rfl⟩ := List.mem_map.1 hx
      exact hes y hy
    · have hq := hqueries _ q hq
      rw [e.queries_mapBelow] at hq
      obtain ⟨y, hy, rfl⟩ := List.mem_map.1 hq
      exact hqs y hy
  · refine ⟨trivial, fun x hx => ?_, fun q' hq' => ?_⟩
    · rw [q.parts_mapped] at hx
      obtain ⟨y, hy, rfl⟩ := List.mem_map.1 hx
      exact hes y hy
    · rw [q.queries_mapped] at hq'
      obtain ⟨y, hy, rfl⟩ := List.mem_map.1 hq'
      exact hqs y hy

end Fixed

section Everywhere

variable {P : Expr → Prop} {Q : Query → Prop}

/-- What holds everywhere still does in a mapped tree if the function keeps it and it does not
depend on what stands below. -/
theorem everywhere_mapped (hf : ∀ e : Expr, e.Everywhere P Q → (f e).Everywhere P Q)
    (hP : ∀ e : Expr, P e → P (e.mapBelow f)) (hQ : ∀ q : Query, Q q → Q (q.mapped f)) :
    (∀ e : Expr, e.Everywhere P Q → (e.mapped f).Everywhere P Q) ∧
      ∀ q : Query, q.Everywhere P Q → (q.mapped f).Everywhere P Q := by
  refine tree_induction (fun e hes hqs he => ?_) fun q hes hqs hq => ?_
  · rw [Expr.mapped_eq_mapBelow]
    refine hf _ ⟨hP e he.here, fun x hx => ?_, fun q hq => ?_⟩
    · rw [e.parts_mapBelow] at hx
      obtain ⟨y, hy, rfl⟩ := List.mem_map.1 hx
      exact hes y hy (he.parts y hy)
    · rw [e.queries_mapBelow] at hq
      obtain ⟨y, hy, rfl⟩ := List.mem_map.1 hq
      exact hqs y hy (he.queries y hy)
  · refine ⟨hQ q hq.here, fun x hx => ?_, fun q' hq' => ?_⟩
    · rw [q.parts_mapped] at hx
      obtain ⟨y, hy, rfl⟩ := List.mem_map.1 hx
      exact hes y hy (hq.parts y hy)
    · rw [q.queries_mapped] at hq'
      obtain ⟨y, hy, rfl⟩ := List.mem_map.1 hq'
      exact hqs y hy (hq.queries y hy)

end Everywhere

end BoundSql
