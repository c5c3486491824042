import BoundSql.Proofs.Tree.Children
import BoundSql.Proofs.Tree.Levels

/-!
# Expressions put in the places of others

To pass expressions through a function where they stand is to call the function on each of them
first, in the order in which they are collected, and to put the results in their places afterwards.
`Fills` says this of a computation, and has a rule for each way in which computations are put
together. `Expr.withChildren` puts given expressions in the places of the children of another one.
So a tree is rebuilt by calls on its children, one after the other, and one on the expression with
the results in their places: `Expr.mapM_eq`, `Body.mapM_eq`.
-/

namespace BoundSql

/-! ## Calling the function first -/

/-- What is done with as many results as there were arguments. -/
theorem mapM_bind_congr {m : Type → Type} [Monad m] [LawfulMonad m] {α β γ : Type} {xs : List α}
    {g : α → m β} {k k' : List β → m γ} (same : ∀ ys, ys.length = xs.length → k ys = k' ys) :
    xs.mapM g >>= k = xs.mapM g >>= k' := by
  induction xs generalizing k k' with
  | nil =>
    rw [List.mapM_nil, pure_bind, pure_bind]
    exact same [] rfl
  | cons x xs ih =>
    rw [List.mapM_cons, bind_assoc, bind_assoc]
    refine congrArg (g x >>= ·) (funext fun y => ?_)
    rw [bind_assoc, bind_assoc]
    refine ih fun ys length => ?_
    rw [pure_bind, pure_bind]
    exact same (y :: ys) (congrArg Nat.succ length)

/-- `t` calls the function on the expressions `xs`, one after the other, and then puts the results
where `collect` finds them, behind the expressions in front. -/
def Fills {α : Type} (collect : α → List Expr) (front xs : List Expr)
    (t : ∀ m : Type → Type, [Monad m] → (Expr → m Expr) → m α) : Prop :=
  ∃ put : List Expr → α,
    (∀ (m : Type → Type) [Monad m] [LawfulMonad m] (g : Expr → m Expr),
      t m g = put <$> xs.mapM g) ∧
    ∀ cs, cs.length = xs.length → collect (put cs) = front ++ cs

section Fills

variable {α β : Type} {collect : α → List Expr} {front xs ys : List Expr}

theorem fills_pure {a : α} (found : collect a = front) :
    Fills collect front [] fun _ _ _ => pure a := by
  refine ⟨fun _ => a, fun m _ _ g => by rw [List.mapM_nil, map_pure], fun cs length => ?_⟩
  rw [List.eq_nil_of_length_eq_zero length, List.append_nil, found]

theorem fills_one (x : Expr) : Fills (fun e => [e]) [] [x] fun _ _ g => g x := by
  refine ⟨fun cs => cs.headD x, fun m _ _ g => by simp, fun cs length => ?_⟩
  obtain ⟨c, rfl⟩ := List.length_eq_one_iff.1 length
  rfl

/-- One behind the other. -/
theorem Fills.bind {collect' : β → List Expr}
    {t : ∀ m : Type → Type, [Monad m] → (Expr → m Expr) → m α}
    {k : α → ∀ m : Type → Type, [Monad m] → (Expr → m Expr) → m β}
    (ht : Fills collect [] xs t) (hk : ∀ a, Fills collect' (front ++ collect a) ys (k a)) :
    Fills collect' front (xs ++ ys) fun m _ g => t m g >>= fun a => k a m g := by
  obtain ⟨put, calls, fills⟩ := ht
  choose put' calls' fills' using hk
  refine ⟨fun cs => put' (put (cs.take xs.length)) (cs.drop xs.length), fun m _ _ g => ?_,
    fun cs length => ?_⟩
  · beta_reduce
    rw [calls, bind_map_left, List.mapM_append, map_bind]
    refine mapM_bind_congr fun as length => ?_
    rw [calls', map_bind, map_eq_pure_bind]
    refine congrArg (ys.mapM g >>= ·) (funext fun bs => ?_)
    rw [map_pure, List.take_left' length, List.drop_left' length]
  · rw [List.length_append] at length
    have taken : (cs.take xs.length).length = xs.length := by
      rw [List.length_take]
      omega
    have left : (cs.drop xs.length).length = ys.length := by
      rw [List.length_drop]
      omega
    rw [fills' _ _ left, fills _ taken, List.nil_append, List.append_assoc, List.take_append_drop]

/-- Something made of the results. -/
theorem Fills.map {collect' : β → List Expr} {f : α → β}
    {t : ∀ m : Type → Type, [Monad m] → (Expr → m Expr) → m α}
    (ht : Fills collect [] xs t) (found : ∀ a, collect' (f a) = front ++ collect a) :
    Fills collect' front xs fun m _ g => t m g >>= fun a => pure (f a) := by
  have both := ht.bind fun a => fills_pure (found a)
  rwa [List.append_nil] at both

/-- The same calls, written in another way. -/
theorem Fills.congr {t t' : ∀ m : Type → Type, [Monad m] → (Expr → m Expr) → m α}
    (ht : Fills collect front xs t)
    (same : ∀ (m : Type → Type) [Monad m] [LawfulMonad m] (g : Expr → m Expr), t' m g = t m g) :
    Fills collect front xs t' := by
  obtain ⟨put, calls, fills⟩ := ht
  exact ⟨put, fun m _ _ g => (same m g).trans (calls m g), fills⟩

theorem fills_option (o : Option Expr) : Fills Option.toList [] o.toList fun _ _ g => o.mapM g := by
  cases o with
  | none => exact fills_pure rfl
  | some x =>
    have given : Fills Option.toList [] [x] fun _ _ g => do return some (← g x) :=
      (fills_one x).map fun _ => rfl
    exact given.congr fun m _ _ g => map_eq_pure_bind ..

/-- Things in a row. -/
theorem fills_list {collect : α → List Expr}
    {t : α → ∀ m : Type → Type, [Monad m] → (Expr → m Expr) → m α} {as : List α}
    (each : ∀ a ∈ as, Fills collect [] (collect a) (t a)) :
    Fills (List.flatMap collect) [] (as.flatMap collect) fun m _ g => as.mapM fun a => t a m g := by
  induction as with
  | nil => exact (fills_pure rfl).congr fun m _ _ g => List.mapM_nil
  | cons a as ih =>
    obtain ⟨head, tail⟩ := List.forall_mem_cons.1 each
    have both : Fills (List.flatMap collect) [] (collect a ++ as.flatMap collect) fun m _ g => do
        let b ← t a m g
        return b :: (← as.mapM fun a => t a m g) := head.bind fun b => (ih tail).map fun bs => rfl
    exact both.congr fun m _ _ g => List.mapM_cons

end Fills

/-! ## The top-level expressions, clause by clause -/

/-- The top-level expressions of a FROM: those of its queries, then the conditions of its joins. -/
def FromClause.roots (c : FromClause) : List Expr := c.queries.flatMap Query.roots ++ c.parts

open Node

theorem map_expr_map_node (es : List Expr) : (es.map Expr.node).map Node.expr = es := by
  rw [List.map_map]
  exact (List.map_congr_left fun e _ => e.expr_node).trans (List.map_id es)

theorem map_expr_flatMap_nodes (qs : List Query) :
    (qs.flatMap Query.nodes).map Node.expr = qs.flatMap Query.roots :=
  List.map_flatMap

theorem Node.map_expr_ofFrom (o : Option FromClause) :
    (ofFrom o).map expr = o.toList.flatMap FromClause.roots := by
  rw [ofFrom_eq, List.map_append, map_expr_map_node, map_expr_flatMap_nodes]
  cases o <;> simp [FromClause.roots]

theorem Query.roots_select (s : Select) : (select s).roots =
    s.distinctOn.toList ++ s.columns.map (·.expr) ++ s.source.toList.flatMap FromClause.roots ++
      s.condition.toList ++ s.groupBy ++ s.having.toList ++ s.orderBy.map (·.expr) ++
      s.limit.toList ++ s.offset.toList := by
  simp only [roots, nodes_select, List.map_append, ofOption_eq, ofColumns_eq, ofExprs_eq,
    ofOrder_eq, map_expr_map_node, map_expr_ofFrom]

theorem Query.roots_compound (c : Compound) : (compound c).roots =
    c.branches.flatMap roots ++ c.orderBy.map (·.expr) ++ c.limit.toList ++ c.offset.toList := by
  simp only [roots, nodes_compound, List.map_append, ofOption_eq, ofQueries_eq, ofOrder_eq,
    map_expr_map_node, map_expr_flatMap_nodes]

section Children

open Expr

@[simp] theorem Expr.children_call (function : String) (distinct : Bool) (args : List Expr) :
    (call function distinct args).children = args := by
  rw [children, node, Node.children, ofExprs_eq, map_expr_map_node]

@[simp] theorem Expr.children_operation (op : Operator) (operands : List Expr) :
    (operation op operands).children = operands := by
  rw [children, node, Node.children, ofExprs_eq, map_expr_map_node]

@[simp] theorem Expr.children_subquery (q : Query) : (subquery q).children = q.roots := by
  rw [children, node, Node.children, Query.roots]

@[simp] theorem Expr.children_cases (base otherwise : Option Expr) (arms : List (Expr × Expr)) :
    (cases base arms otherwise).children =
      base.toList ++ arms.flatMap (fun arm => [arm.1, arm.2]) ++ otherwise.toList := by
  rw [children, node_eq, Node.children, List.map_append, map_expr_map_node]
  exact List.append_nil _

@[simp] theorem Expr.children_cast (e : Expr) (t : DataType) : (cast e t).children = [e] := by
  rw [children, node, Node.children, List.map_singleton, expr_node]

end Children

/-- The top-level expressions of an INSERT. -/
def InsertSource.roots : InsertSource → List Expr
  | values rows => rows.flatten
  | query q => q.roots
  | defaultValues => []

@[simp] theorem Body.roots_insert (i : Insert) : (insert i).roots = i.source.roots := by
  obtain ⟨table, columns, source, onConflict⟩ := i
  cases source with
  | values rows => exact (congrArg _ (ofExprs_eq rows.flatten)).trans (map_expr_map_node _)
  | query | defaultValues => rfl

@[simp] theorem Body.roots_update (u : Update) :
    (update u).roots = u.assignments.map (·.value) ++ u.condition.toList := by
  rw [roots, nodes, ofExprs_eq, ofOption_eq, List.map_append, map_expr_map_node, map_expr_map_node]

@[simp] theorem Body.roots_delete (d : Delete) : (delete d).roots = d.condition.toList := by
  rw [roots, nodes, ofOption_eq, map_expr_map_node]

/-- Things in a row that hold an expression each. -/
theorem fills_row {α : Type} {expr : α → Expr}
    {t : α → ∀ m : Type → Type, [Monad m] → (Expr → m Expr) → m α}
    (each : ∀ a, Fills (fun a => [expr a]) [] [expr a] (t a)) (as : List α) :
    Fills (List.map expr) [] (as.map expr) fun m _ g => as.mapM fun a => t a m g := by
  have alone : List.map expr = List.flatMap fun a => [expr a] :=
    funext fun as => List.map_eq_flatMap
  rw [alone]
  exact fills_list fun a _ => each a

theorem fills_exprs (es : List Expr) : Fills id [] es fun _ _ g => es.mapM g := by
  have alone : (id : List Expr → List Expr) = List.map id := funext fun es => (List.map_id es).symm
  have row : Fills (List.map id) [] (es.map id) fun _ _ g => es.mapM fun e => g e :=
    fills_row (fun e => fills_one e) es
  rwa [← alone] at row

theorem fills_columns (cs : List Column) :
    Fills (List.map (·.expr)) [] (cs.map (·.expr)) fun _ _ g => cs.mapM (Column.mapM g) := by
  refine fills_row (fun c => ?_) cs
  exact (fills_one c.expr).map fun _ => rfl

theorem fills_order (os : List OrderItem) :
    Fills (List.map (·.expr)) [] (os.map (·.expr)) fun _ _ g => os.mapM (OrderItem.mapM g) := by
  refine fills_row (fun o => ?_) os
  exact (fills_one o.expr).map fun _ => rfl

theorem fills_assignments (as : List Assignment) : Fills (List.map (·.value)) [] (as.map (·.value))
    fun _ _ g => as.mapM (Assignment.mapRootM g) := by
  refine fills_row (fun a => ?_) as
  exact (fills_one a.value).map fun _ => rfl

theorem fills_arms (arms : List (Expr × Expr)) :
    Fills (List.flatMap fun arm => [arm.1, arm.2]) [] (arms.flatMap fun arm => [arm.1, arm.2])
      fun _ _ g => arms.mapM (Expr.mapArmM g) :=
  fills_list fun arm _ => (fills_one arm.1).bind fun _ => (fills_one arm.2).map fun _ => rfl

theorem fills_joins (js : List Join) : Fills (List.filterMap (·.condition.expr?)) []
    (js.filterMap (·.condition.expr?)) fun _ _ g => js.mapM (Join.mapM g) := by
  have condition (c : JoinCondition) :
      Fills (fun c => c.expr?.toList) [] c.expr?.toList fun _ _ g => c.mapM g := by
    cases c with
    | predicate e => exact (fills_one e).map fun _ => rfl
    | none | columns => exact fills_pure rfl
  have alone : List.filterMap (fun j : Join => j.condition.expr?) =
      List.flatMap fun j => j.condition.expr?.toList :=
    funext fun js => List.filterMap_eq_flatMap_toList ..
  rw [alone]
  refine fills_list fun j _ => ?_
  exact (condition j.condition).map fun _ => rfl

/-! ### Queries -/

/-- The top-level expressions of the query can be passed through a function before they are put in
their places. -/
abbrev Query.RootsFill (q : Query) : Prop := Fills roots [] q.roots fun _ _ g => q.mapRootsM g

theorem fills_targets {ts : List Target}
    (each : ∀ q ∈ ts.filterMap (·.rows.query?), q.RootsFill) :
    Fills (fun ts => (ts.filterMap (·.rows.query?)).flatMap Query.roots) []
      ((ts.filterMap (·.rows.query?)).flatMap Query.roots)
      fun _ _ g => Target.mapRootsAllM g ts := by
  induction ts with
  | nil => exact fills_pure rfl
  | cons t ts ih =>
    obtain ⟨rows, label⟩ := t
    cases rows with
    | table i => exact (ih each).map fun _ => rfl
    | subquery q =>
      obtain ⟨head, tail⟩ := List.forall_mem_cons.1 each
      exact head.bind fun _ => (ih tail).map fun _ => rfl

theorem fills_from {c : FromClause}
    (each : ∀ q ∈ c.queries, q.RootsFill) :
    Fills FromClause.roots [] c.roots fun _ _ g => c.mapRootsM g := by
  obtain ⟨targets, joins⟩ := c
  exact (fills_targets each).bind fun _ => (fills_joins joins).map fun _ => rfl

theorem fills_source {o : Option FromClause}
    (each : ∀ q ∈ (o.map (·.queries)).getD [], q.RootsFill) :
    Fills (fun o => o.toList.flatMap FromClause.roots) [] (o.toList.flatMap FromClause.roots)
      fun _ _ g => FromClause.mapRootsOptionM g o := by
  cases o with
  | none => exact fills_pure rfl
  | some c =>
    rw [Option.toList_some, List.flatMap_singleton]
    have given : Fills (fun o => o.toList.flatMap FromClause.roots) [] c.roots
        fun _ _ g => do return some (← c.mapRootsM g) :=
      (fills_from each).map fun c => List.flatMap_singleton ..
    exact given.congr fun m _ _ g => map_eq_pure_bind ..

theorem fills_branches {qs : List Query}
    (each : ∀ q ∈ qs, q.RootsFill) :
    Fills (List.flatMap Query.roots) [] (qs.flatMap Query.roots)
      fun _ _ g => Query.mapRootsAllM g qs := by
  induction qs with
  | nil => exact fills_pure rfl
  | cons q qs ih =>
    obtain ⟨head, tail⟩ := List.forall_mem_cons.1 each
    exact head.bind fun _ => (ih tail).map fun _ => rfl

theorem Select.fills {s : Select}
    (each : ∀ q ∈ (Query.select s).queries, q.RootsFill) :
    Fills (fun s => (Query.select s).roots) [] (Query.select s).roots
      fun _ _ g => s.mapRootsM g := by
  obtain ⟨distinct, distinctOn, columns, source, condition, groupBy, having, orderBy, limit,
    offset⟩ := s
  rw [Query.roots_select]
  simp only [List.append_assoc]
  refine
    (fills_option distinctOn).bind fun distinctOn =>
    (fills_columns columns).bind fun columns =>
    (fills_source each).bind fun source =>
    (fills_option condition).bind fun condition =>
    (fills_exprs groupBy).bind fun groupBy =>
    (fills_option having).bind fun having =>
    (fills_order orderBy).bind fun orderBy =>
    (fills_option limit).bind fun limit =>
    (fills_option offset).map fun offset => ?_
  rw [Query.roots_select, List.nil_append]
  rfl

theorem Compound.fills {c : Compound}
    (each : ∀ q ∈ c.branches, q.RootsFill) :
    Fills (fun c => (Query.compound c).roots) [] (Query.compound c).roots
      fun _ _ g => c.mapRootsM g := by
  obtain ⟨op, branches, orderBy, limit, offset⟩ := c
  rw [Query.roots_compound]
  simp only [List.append_assoc]
  refine
    (fills_branches each).bind fun branches =>
    (fills_order orderBy).bind fun orderBy =>
    (fills_option limit).bind fun limit =>
    (fills_option offset).map fun offset => ?_
  rw [Query.roots_compound, List.nil_append]

theorem Query.rootsFill (q : Query) : q.RootsFill := by
  have general : (∀ _ : Expr, True) ∧ ∀ q : Query, q.RootsFill := by
    refine tree_induction (fun _ _ _ => trivial) fun q _ ih => ?_
    cases q with
    | select s => exact (Select.fills ih).map fun _ => rfl
    | compound c => exact (Compound.fills ih).map fun _ => rfl
  exact general.2 q

/-- The children of an expression can be passed through a function before they are put in their
places. -/
theorem Expr.fills (e : Expr) : Fills children [] e.children fun _ _ g => e.mapChildrenM g := by
  cases e with
  | literal | name | param | wildcard => exact fills_pure rfl
  | call function distinct args =>
    rw [children_call]
    exact (fills_exprs args).map fun args => children_call ..
  | operation op operands =>
    rw [children_operation]
    exact (fills_exprs operands).map fun operands => children_operation ..
  | subquery q =>
    rw [children_subquery]
    exact q.rootsFill.map fun q => children_subquery q
  | cases base arms otherwise =>
    rw [children_cases, List.append_assoc]
    exact
      (fills_option base).bind fun base =>
      (fills_arms arms).bind fun arms =>
      (fills_option otherwise).map fun otherwise => children_cases ..
  | cast e t =>
    rw [children_cast]
    exact (fills_one e).map fun e => children_cast e t

theorem InsertSource.fills (i : InsertSource) :
    Fills roots [] i.roots fun _ _ g => i.mapRootsM g := by
  cases i with
  | values rows =>
    have rows := fills_list fun row (_ : row ∈ rows) => fills_exprs row
    rw [List.flatMap_id] at rows
    exact rows.map fun rows => List.flatMap_id.symm
  | query q => exact q.rootsFill.map fun _ => rfl
  | defaultValues => exact fills_pure rfl

/-- The top-level expressions of a statement can be passed through a function before they are put in
their places. -/
theorem Body.fills (b : Body) : Fills roots [] b.roots fun _ _ g => b.mapRootsM g := by
  cases b with
  | select s => exact (Select.fills fun q _ => q.rootsFill).map fun _ => rfl
  | compound c => exact (Compound.fills fun q _ => q.rootsFill).map fun _ => rfl
  | insert i =>
    rw [roots_insert]
    exact i.source.fills.map fun source => roots_insert _
  | update u =>
    rw [roots_update]
    exact
      (fills_assignments u.assignments).bind fun assignments =>
      (fills_option u.condition).map fun condition => roots_update _
  | delete d =>
    rw [roots_delete]
    exact (fills_option d.condition).map fun condition => roots_delete _
  | transaction | verbatim => exact fills_pure rfl

/-! ## Given expressions put in the places -/

/-- Takes the next of the expressions that are left, instead of the given one. -/
def takeNext (e : Expr) : StateM (List Expr) Expr := fun cs => (cs.headD e, cs.tail)

/-- The expression with others in the places of its children. -/
def Expr.withChildren (e : Expr) (cs : List Expr) : Expr := ((e.mapChildrenM takeNext).run cs).1

/-- The statement with other top-level expressions. -/
def Body.withRoots (b : Body) (cs : List Expr) : Body := ((b.mapRootsM takeNext).run cs).1

theorem run_mapM_takeNext {xs cs : List Expr} (length : cs.length = xs.length) :
    (xs.mapM takeNext).run cs = (cs, []) := by
  induction xs generalizing cs with
  | nil =>
    rw [List.eq_nil_of_length_eq_zero length]
    rfl
  | cons x xs ih =>
    obtain ⟨c, cs, rfl⟩ := List.exists_cons_of_length_eq_add_one length
    have tail := ih (Nat.succ.inj length)
    rw [List.mapM_cons, StateT.run_bind]
    change ((do return c :: (← xs.mapM takeNext) : StateM (List Expr) (List Expr))).run cs = _
    rw [StateT.run_bind, tail]
    rfl

section

variable {α : Type} {collect : α → List Expr} {xs : List Expr}
  {t : ∀ m : Type → Type, [Monad m] → (Expr → m Expr) → m α}

/-- The results of a function are put where given expressions are put. -/
theorem Fills.eq_map (h : Fills collect [] xs t) {m : Type → Type} [Monad m] [LawfulMonad m]
    (g : Expr → m Expr) :
    t m g = (fun cs => ((t (StateM (List Expr)) takeNext).run cs).1) <$> xs.mapM g := by
  obtain ⟨put, calls, -⟩ := h
  rw [calls, map_eq_pure_bind, map_eq_pure_bind]
  refine mapM_bind_congr fun cs length => ?_
  rw [calls, StateT.run_map, run_mapM_takeNext length]
  rfl

/-- Given expressions are found where they have been put. -/
theorem Fills.collect_eq (h : Fills collect [] xs t) {cs : List Expr}
    (length : cs.length = xs.length) :
    collect ((t (StateM (List Expr)) takeNext).run cs).1 = cs := by
  obtain ⟨put, calls, fills⟩ := h
  rw [calls, StateT.run_map, run_mapM_takeNext length]
  exact fills cs length

end

theorem Expr.children_withChildren (e : Expr) {cs : List Expr}
    (length : cs.length = e.children.length) : (e.withChildren cs).children = cs :=
  e.fills.collect_eq length

theorem Body.roots_withRoots (b : Body) {cs : List Expr} (length : cs.length = b.roots.length) :
    (b.withRoots cs).roots = cs :=
  b.fills.collect_eq length

/-- An expression is rebuilt by rebuilding its children one after the other, and calling the
function on the expression with the results in their places. -/
theorem Expr.mapM_eq {m : Type → Type} [Monad m] [LawfulMonad m] (f : Expr → m Expr) (e : Expr) :
    e.mapM f = e.children.mapM (Expr.mapM f) >>= fun cs => f (e.withChildren cs) := by
  rw [mapM_eq_mapChildrenM, e.fills.eq_map, bind_map_left]
  rfl

/-- A statement is rebuilt by rebuilding its top-level expressions one after the other. -/
theorem Body.mapM_eq {m : Type → Type} [Monad m] [LawfulMonad m] (f : Expr → m Expr) (b : Body) :
    b.mapM f = b.withRoots <$> b.roots.mapM (Expr.mapM f) := by
  rw [mapM_eq_mapRootsM, b.fills.eq_map]
  rfl

/-! ## Nothing changed -/

/-- A function that changes nothing rebuilds the same expression. -/
theorem Expr.mapped_id (e : Expr) : e.mapped id = e :=
  mapped_eq_self.1 e ((everywhere_of_forall (fun _ => rfl) fun _ => trivial).1 e)

theorem Query.mapped_id (q : Query) : q.mapped id = q :=
  BoundSql.mapped_eq_self.2 q ((everywhere_of_forall (fun _ => rfl) fun _ => trivial).2 q)

/-- A function that changes nothing rebuilds the same statement. -/
theorem Body.map_id (b : Body) : b.map id = b :=
  b.map_eq_self (fun e _ => e.mapped_id) fun q _ => q.mapped_id

theorem run_mapM_id (es : List Expr) :
    Id.run (es.mapM (Expr.mapM fun e => (pure (id e) : Id Expr))) = es := by
  rw [List.idRun_mapM]
  exact (List.map_congr_left fun e _ => e.mapped_id).trans (List.map_id es)

/-- An expression is the same with its own children in their places. -/
theorem Expr.withChildren_children (e : Expr) : e.withChildren e.children = e := by
  have rebuilt := e.mapped_id
  rw [mapped, mapM_eq, Id.run_bind, run_mapM_id] at rebuilt
  exact rebuilt

/-- A statement is the same with its own top-level expressions. -/
theorem Body.withRoots_roots (b : Body) : b.withRoots b.roots = b := by
  have rebuilt := b.map_id
  rw [map, mapM_eq, Id.run_map, run_mapM_id] at rebuilt
  exact rebuilt

end BoundSql
