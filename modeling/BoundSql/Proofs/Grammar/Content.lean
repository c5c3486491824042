import BoundSql.Proofs.Grammar.Collects

/-!
# What the parts of a tree hold

The contents of the trees that the grammar builds, constructor by constructor.
-/

namespace BoundSql

namespace Content

variable {α β : Type} {c : Content α} {d : Content β}

@[simp] theorem bag_nothing (x : α) : (nothing : Content α).bag x = 0 := rfl

@[simp] theorem sound_nothing (x : α) : (nothing : Content α).sound x := trivial

@[simp] theorem bag_list_nil : c.list.bag [] = 0 := rfl

@[simp] theorem bag_list_cons (x : α) (xs : List α) :
    c.list.bag (x :: xs) = c.bag x + c.list.bag xs := by
  simp [list]

@[simp] theorem bag_list_append (xs ys : List α) :
    c.list.bag (xs ++ ys) = c.list.bag xs + c.list.bag ys := by
  simp [list]

@[simp] theorem sound_list_nil : c.list.sound [] := by simp [list]

@[simp] theorem sound_list_cons (x : α) (xs : List α) :
    c.list.sound (x :: xs) ↔ c.sound x ∧ c.list.sound xs := by
  simp [list]

@[simp] theorem sound_list_append (xs ys : List α) :
    c.list.sound (xs ++ ys) ↔ c.list.sound xs ∧ c.list.sound ys := by
  simp [list, or_imp, forall_and]

@[simp] theorem bag_list_map (f : α → β) (xs : List α) :
    d.list.bag (xs.map f) = (d.on f).list.bag xs := by
  simp [list, on, Function.comp_def]

@[simp] theorem sound_list_map (f : α → β) (xs : List α) :
    d.list.sound (xs.map f) ↔ (d.on f).list.sound xs := by
  simp [list, on]

@[simp] theorem bag_list_flatten (xss : List (List α)) :
    c.list.bag xss.flatten = c.list.list.bag xss := by
  induction xss with
  | nil => rfl
  | cons xs xss ih => rw [List.flatten_cons, bag_list_append, ih, bag_list_cons]

@[simp] theorem sound_list_flatten (xss : List (List α)) :
    c.list.sound xss.flatten ↔ c.list.list.sound xss := by
  induction xss with
  | nil => simp
  | cons xs xss ih => rw [List.flatten_cons, sound_list_append, ih, sound_list_cons]

@[simp] theorem bag_list_toList (o : Option α) : c.list.bag o.toList = c.option.bag o := rfl

@[simp] theorem sound_list_toList (o : Option α) : c.list.sound o.toList ↔ c.option.sound o := .rfl

@[simp] theorem bag_option_none : c.option.bag none = 0 := rfl

@[simp] theorem bag_option_some (x : α) : c.option.bag (some x) = c.bag x :=
  (bag_list_cons x []).trans (add_zero _)

@[simp] theorem sound_option_none : c.option.sound none := sound_list_nil

@[simp] theorem sound_option_some (x : α) : c.option.sound (some x) ↔ c.sound x :=
  (sound_list_cons x []).trans (and_iff_left sound_list_nil)

/-- A list that is missing holds no more than an empty one. -/
@[simp] theorem bag_list_getD (o : Option (List α)) :
    c.list.bag (o.getD []) = c.list.option.bag o := by
  cases o <;> simp

@[simp] theorem sound_list_getD (o : Option (List α)) :
    c.list.sound (o.getD []) ↔ c.list.option.sound o := by
  cases o <;> simp

@[simp] theorem bag_both (x : α × β) : (c.both d).bag x = c.bag x.1 + d.bag x.2 := rfl

@[simp] theorem sound_both (x : α × β) : (c.both d).sound x ↔ c.sound x.1 ∧ d.sound x.2 := .rfl

/-! ## Expressions -/

theorem bag_expr (e : Expr) : expr.bag e =
    .ofParams e.param?.toList + (expr.list.bag e.parts + query.list.bag e.queries) := by
  change Bag.ofParams e.params = _
  rw [e.params_eq, Bag.ofParams_append, Bag.ofParams_append, Bag.ofParams_flatMap,
    Bag.ofParams_flatMap]
  rfl

theorem sound_expr (e : Expr) :
    expr.sound e ↔ expr.list.sound e.parts ∧ query.list.sound e.queries := Expr.ordered_iff

variable (e : Expr) (q : Query) (es : List Expr)

@[simp] theorem bag_literal (l : Literal) : expr.bag (.literal l) = 0 := by
  simp [bag_expr, Expr.param?, Expr.parts, Expr.queries]

@[simp] theorem bag_name (i : Identifier) : expr.bag (.name i) = 0 := by
  simp [bag_expr, Expr.param?, Expr.parts, Expr.queries]

@[simp] theorem bag_wildcard (table : Option String) : expr.bag (.wildcard table) = 0 := by
  simp [bag_expr, Expr.param?, Expr.parts, Expr.queries]

@[simp] theorem bag_param (p : ParamRef) : expr.bag (.param p) = {.ok p.bare} := by
  simp [bag_expr, Expr.param?, Expr.parts, Expr.queries, Bag.ofParams]

@[simp] theorem bag_call (function : String) (distinct : Bool) :
    expr.bag (.call function distinct es) = expr.list.bag es := by
  simp [bag_expr, Expr.param?, Expr.parts, Expr.queries]

@[simp] theorem bag_operation (op : Operator) : expr.bag (.operation op es) = expr.list.bag es := by
  simp [bag_expr, Expr.param?, Expr.parts, Expr.queries]

@[simp] theorem bag_subquery : expr.bag (.subquery q) = query.bag q := by
  simp [bag_expr, Expr.param?, Expr.parts, Expr.queries]

@[simp] theorem bag_cast (type : DataType) : expr.bag (.cast e type) = expr.bag e := by
  simp [bag_expr (.cast e type), Expr.param?, Expr.parts, Expr.queries]

@[simp] theorem bag_cases (base otherwise : Option Expr) (arms : List (Expr × Expr)) :
    expr.bag (.cases base arms otherwise) =
      expr.option.bag base + (expr.both expr).list.bag arms + expr.option.bag otherwise := by
  have pairs : expr.list.bag (arms.flatMap fun arm => [arm.1, arm.2]) =
      (expr.both expr).list.bag arms := by
    induction arms with
    | nil => rfl
    | cons arm arms ih => simp [ih, add_assoc]
  simp [bag_expr (.cases base arms otherwise), Expr.param?, Expr.parts, Expr.queries, pairs,
    add_assoc]

@[simp] theorem sound_literal (l : Literal) : expr.sound (.literal l) := by
  simp [sound_expr, Expr.parts, Expr.queries]

@[simp] theorem sound_name (i : Identifier) : expr.sound (.name i) := by
  simp [sound_expr, Expr.parts, Expr.queries]

@[simp] theorem sound_wildcard (table : Option String) : expr.sound (.wildcard table) := by
  simp [sound_expr, Expr.parts, Expr.queries]

@[simp] theorem sound_param (p : ParamRef) : expr.sound (.param p) := by
  simp [sound_expr, Expr.parts, Expr.queries]

@[simp] theorem sound_call (function : String) (distinct : Bool) :
    expr.sound (.call function distinct es) ↔ expr.list.sound es := by
  simp [sound_expr, Expr.parts, Expr.queries]

@[simp] theorem sound_operation (op : Operator) :
    expr.sound (.operation op es) ↔ expr.list.sound es := by
  simp [sound_expr, Expr.parts, Expr.queries]

@[simp] theorem sound_subquery : expr.sound (.subquery q) ↔ query.sound q := by
  simp [sound_expr, Expr.parts, Expr.queries]

@[simp] theorem sound_cast (type : DataType) : expr.sound (.cast e type) ↔ expr.sound e := by
  simp [sound_expr (.cast e type), Expr.parts, Expr.queries]

@[simp] theorem sound_cases (base otherwise : Option Expr) (arms : List (Expr × Expr)) :
    expr.sound (.cases base arms otherwise) ↔
      expr.option.sound base ∧ (expr.both expr).list.sound arms ∧ expr.option.sound otherwise := by
  have pairs : expr.list.sound (arms.flatMap fun arm => [arm.1, arm.2]) ↔
      (expr.both expr).list.sound arms := by
    induction arms with
    | nil => simp
    | cons arm arms ih => simp [ih, and_assoc]
  simp [sound_expr (.cases base arms otherwise), Expr.parts, Expr.queries, pairs]

/-! ## Queries -/

theorem bag_query : query.bag q = expr.list.bag q.parts + query.list.bag q.queries := by
  change Bag.ofParams q.params = _
  rw [Bag.ofParams_perm q.params_perm, Bag.ofParams_append, Bag.ofParams_flatMap,
    Bag.ofParams_flatMap]
  rfl

theorem sound_query : query.sound q ↔
    q.JoinsOrdered ∧ expr.list.sound q.parts ∧ query.list.sound q.queries := Query.ordered_iff

/-- A target holds the query that it reads. -/
def target : Content Target := query.option.on fun t => t.rows.query?

/-- The condition of a join, if it is an expression. -/
def condition : Content JoinCondition := expr.option.on JoinCondition.expr?

/-- A FROM holds its queries and the conditions of its joins, which stand in order. -/
def fromClause : Content FromClause where
  bag f := query.list.bag f.queries + expr.list.bag f.parts
  sound f := f.Ordered ∧ query.list.sound f.queries ∧ expr.list.sound f.parts

/-- The clauses that bound the rows of a query. -/
def bounds : Content Grammar.Bounds :=
  ((expr.on OrderItem.expr).list.both (expr.option.both expr.option)).on fun b =>
    (b.orderBy, b.limit, b.offset)

theorem bag_fromClause_single (t : Target) : fromClause.bag ⟨[t], []⟩ = target.bag t := by
  have queries := FromClause.queries_push ⟨[], []⟩ t []
  change query.list.bag (FromClause.queries ⟨[] ++ [t], []⟩) + 0 = _
  rw [queries, add_zero]
  rfl

theorem sound_fromClause_single {t : Target} (ht : target.sound t) :
    fromClause.sound ⟨[t], []⟩ := by
  have queries := FromClause.queries_push ⟨[], []⟩ t []
  refine ⟨FromClause.ordered_single t, ?_, sound_list_nil⟩
  change query.list.sound (FromClause.queries ⟨[] ++ [t], []⟩)
  rw [queries]
  exact ht

theorem bag_fromClause_push (f : FromClause) (t : Target) (j : Join) :
    fromClause.bag ⟨f.targets ++ [t], f.joins ++ [j]⟩ =
      fromClause.bag f + target.bag t + condition.bag j.condition := by
  simp only [fromClause, FromClause.queries_push, FromClause.parts_push, bag_list_append,
    bag_list_toList, target, condition, on]
  ac_rfl

theorem sound_fromClause_push {f : FromClause} (hf : fromClause.sound f) {t : Target}
    (ht : target.sound t) (kind : JoinKind) {on : JoinCondition} (hon : condition.sound on) :
    fromClause.sound ⟨f.targets ++ [t], f.joins ++ [⟨kind, f.targets.length, on⟩]⟩ := by
  obtain ⟨ordered, queries, parts⟩ := hf
  refine ⟨ordered.push t kind on, ?_, ?_⟩
  · rw [FromClause.queries_push, sound_list_append]
    exact ⟨queries, ht⟩
  · rw [FromClause.parts_push, sound_list_append]
    exact ⟨parts, hon⟩

theorem bag_fromClause_option (o : Option FromClause) : fromClause.option.bag o =
    query.list.bag ((o.map (·.queries)).getD []) + expr.list.bag ((o.map (·.parts)).getD []) := by
  cases o with
  | none => rfl
  | some f => exact bag_option_some f

theorem sound_fromClause_option (o : Option FromClause) : fromClause.option.sound o ↔
    (∀ f ∈ o, f.Ordered) ∧ query.list.sound ((o.map (·.queries)).getD []) ∧
      expr.list.sound ((o.map (·.parts)).getD []) := by
  cases o with
  | none => simp
  | some f => simp [fromClause]

theorem bag_select (s : Select) : query.bag (.select s) =
    expr.option.bag s.distinctOn + (expr.on Column.expr).list.bag s.columns +
      fromClause.option.bag s.source + expr.option.bag s.condition + expr.list.bag s.groupBy +
      expr.option.bag s.having + bounds.bag ⟨s.orderBy, s.limit, s.offset⟩ := by
  simp only [bag_query, Query.parts, Query.queries, bag_fromClause_option, bag_list_append,
    bag_list_toList, bag_list_map, bounds, on, bag_both]
  ac_rfl

theorem sound_select (s : Select) : query.sound (.select s) ↔
    expr.option.sound s.distinctOn ∧ (expr.on Column.expr).list.sound s.columns ∧
      fromClause.option.sound s.source ∧ expr.option.sound s.condition ∧
      expr.list.sound s.groupBy ∧ expr.option.sound s.having ∧
      bounds.sound ⟨s.orderBy, s.limit, s.offset⟩ := by
  simp only [sound_query, Query.parts, Query.queries, Query.JoinsOrdered, sound_fromClause_option,
    sound_list_append, sound_list_toList, sound_list_map, bounds, on, sound_both]
  tauto

theorem bag_compound (c : Compound) : query.bag (.compound c) =
    query.list.bag c.branches + bounds.bag ⟨c.orderBy, c.limit, c.offset⟩ := by
  simp only [bag_query, Query.parts, Query.queries, bag_list_append, bag_list_toList, bag_list_map,
    bounds, on, bag_both]
  ac_rfl

theorem sound_compound (c : Compound) : query.sound (.compound c) ↔
    query.list.sound c.branches ∧ bounds.sound ⟨c.orderBy, c.limit, c.offset⟩ := by
  simp only [sound_query, Query.parts, Query.queries, Query.JoinsOrdered, sound_list_append,
    sound_list_toList, sound_list_map, bounds, on, sound_both]
  tauto

@[simp] theorem bag_bounds_none : bounds.bag ⟨[], none, none⟩ = 0 := rfl

@[simp] theorem sound_bounds_none : bounds.sound ⟨[], none, none⟩ := by simp [bounds, on]

/-! ## Statements -/

/-- The rows of an INSERT. -/
def insertSource : Content InsertSource :=
  (expr.list.both query.list).on fun s => (s.parts, s.queries)

/-- Statements hold their parameters. -/
def body : Content Body where
  bag b := .ofParams b.params
  sound b := expr.list.sound b.parts ∧ query.list.sound b.queries

theorem bag_body (b : Body) : body.bag b = expr.list.bag b.parts + query.list.bag b.queries +
    .ofParams (b.fragments.filterMap Fragment.ref?) := by
  change Bag.ofParams b.params = _
  rw [Bag.ofParams_perm b.params_perm, Bag.ofParams_append, Bag.ofParams_append,
    Bag.ofParams_flatMap, Bag.ofParams_flatMap]
  rfl

end Content

end BoundSql
