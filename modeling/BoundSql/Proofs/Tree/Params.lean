import BoundSql.Proofs.Tree.Body
import BoundSql.Render.NullTest
import BoundSql.Tree.Node
import Mathlib.Data.List.Perm.Basic

/-!
# The parameters of a tree

The parameters that stand in an expression, a query or a statement, one for each place. Up to
their order they are the parameters of the trees directly below, with the tree itself if it is a
parameter.
-/

namespace BoundSql

/-- The parameters among the nodes of a forest. -/
def Node.params (ns : List Node) : List ParamRef :=
  ((preorderAll ns).map expr).filterMap Expr.param?

/-- The parameters of an expression, those in its queries included. -/
def Expr.params (e : Expr) : List ParamRef := Node.params [e.node]

/-- The parameters of a query, those in the queries below it included. -/
def Query.params (q : Query) : List ParamRef := Node.params q.nodes

/-- The parameter that a piece of kept text is. -/
def Fragment.ref? : Fragment → Option ParamRef
  | param p => some p
  | text _ => none

/-- The pieces of a statement that is kept as text. -/
def Body.fragments : Body → List Fragment
  | verbatim parts => parts
  | _ => []

/-- The parameters of a statement. -/
def Body.params (b : Body) : List ParamRef :=
  b.exprs.filterMap Expr.param? ++ b.fragments.filterMap Fragment.ref?

namespace Node

@[simp] theorem params_nil : params [] = [] := rfl

theorem preorderAll_append (ns ms : List Node) :
    preorderAll (ns ++ ms) = preorderAll ns ++ preorderAll ms := by
  induction ns with
  | nil => rfl
  | cons n ns ih => rw [List.cons_append, preorderAll, preorderAll, ih, List.append_assoc]

@[simp] theorem params_append (ns ms : List Node) : params (ns ++ ms) = params ns ++ params ms := by
  rw [params, preorderAll_append, List.map_append, List.filterMap_append]
  rfl

theorem params_map_node (es : List Expr) : params (es.map Expr.node) = es.flatMap Expr.params := by
  induction es with
  | nil => rfl
  | cons e es ih =>
    rw [List.map_cons, List.flatMap_cons, ← ih, ← List.singleton_append, params_append,
      Expr.params]

theorem params_flatMap_nodes (qs : List Query) :
    params (qs.flatMap Query.nodes) = qs.flatMap Query.params := by
  induction qs with
  | nil => rfl
  | cons q qs ih => rw [List.flatMap_cons, List.flatMap_cons, ← ih, params_append, Query.params]

theorem ofExprs_eq (es : List Expr) : ofExprs es = es.map Expr.node := by
  induction es with
  | nil => rfl
  | cons e es ih => rw [ofExprs, ih, List.map_cons]

theorem ofArms_eq (arms : List (Expr × Expr)) :
    ofArms arms = (arms.flatMap fun arm => [arm.1, arm.2]).map Expr.node := by
  induction arms with
  | nil => rfl
  | cons arm arms ih => rw [ofArms, ih]; rfl

theorem ofColumns_eq (cs : List Column) : ofColumns cs = (cs.map (·.expr)).map Expr.node := by
  induction cs with
  | nil => rfl
  | cons c cs ih =>
    obtain ⟨e, label⟩ := c
    rw [ofColumns, ih]
    rfl

theorem ofOrder_eq (os : List OrderItem) : ofOrder os = (os.map (·.expr)).map Expr.node := by
  induction os with
  | nil => rfl
  | cons o os ih =>
    obtain ⟨e, order, collation⟩ := o
    rw [ofOrder, ih]
    rfl

theorem ofQueries_eq (qs : List Query) : ofQueries qs = qs.flatMap Query.nodes := by
  induction qs with
  | nil => rfl
  | cons q qs ih => rw [ofQueries, ih, List.flatMap_cons]

theorem ofTargets_eq (ts : List Target) :
    ofTargets ts = (ts.filterMap (·.rows.query?)).flatMap Query.nodes := by
  induction ts with
  | nil => rfl
  | cons t ts ih =>
    obtain ⟨rows, label⟩ := t
    cases rows <;> rw [ofTargets, ih] <;> rfl

theorem ofJoins_eq (js : List Join) :
    ofJoins js = (js.filterMap (·.condition.expr?)).map Expr.node := by
  induction js with
  | nil => rfl
  | cons j js ih =>
    obtain ⟨kind, position, condition⟩ := j
    cases condition <;> rw [ofJoins, ih] <;> rfl

theorem ofOption_eq (o : Option Expr) : ofOption o = o.toList.map Expr.node := by
  cases o <;> rfl

/-- The nodes of a FROM that may be missing. -/
def ofFrom (o : Option FromClause) : List Node := (o.map FromClause.nodes).getD []

theorem ofFrom_eq (o : Option FromClause) : ofFrom o =
    ((o.map (·.queries)).getD []).flatMap Query.nodes ++
      ((o.map (·.parts)).getD []).map Expr.node := by
  cases o with
  | none => rfl
  | some f =>
    obtain ⟨targets, joins⟩ := f
    have nodes : ofFrom (some ⟨targets, joins⟩) = ofTargets targets ++ ofJoins joins := by
      rw [ofFrom, Option.map_some, Option.getD_some, FromClause.nodes.eq_def]
    exact nodes.trans (congrArg₂ (· ++ ·) (ofTargets_eq targets) (ofJoins_eq joins))

end Node

open Node

/-- Below an expression stand the expressions and the queries directly below it. -/
theorem Expr.node_eq (e : Expr) :
    e.node = ⟨e, e.parts.map node ++ e.queries.flatMap Query.nodes⟩ := by
  cases e with
  | literal | name | param | wildcard => rfl
  | call f d args =>
    rw [node.eq_def]
    simp [ofExprs_eq, parts, queries]
  | operation op operands =>
    rw [node.eq_def]
    simp [ofExprs_eq, parts, queries]
  | subquery q =>
    rw [node.eq_def]
    simp [parts, queries]
  | cases base arms otherwise =>
    rw [node.eq_def]
    cases base <;> cases otherwise <;> simp [ofArms_eq, parts, queries]
  | cast e t =>
    rw [node.eq_def]
    simp [parts, queries]

theorem Expr.params_eq (e : Expr) : e.params =
    e.param?.toList ++ (e.parts.flatMap params ++ e.queries.flatMap Query.params) := by
  have below := params_append (e.parts.map node) (e.queries.flatMap Query.nodes)
  rw [params_map_node, params_flatMap_nodes] at below
  rw [← below, params, node_eq, Node.params, preorderAll, preorderAll, preorder, List.append_nil,
    List.map_cons]
  cases h : param? e <;> simp [Node.expr, Node.params, h]

@[simp] theorem Expr.params_subquery (q : Query) : (Expr.subquery q).params = q.params := by
  simp [params_eq, param?, parts, queries]

@[simp] theorem Expr.params_operation (op : Operator) (operands : List Expr) :
    (Expr.operation op operands).params = operands.flatMap Expr.params := by
  simp [params_eq, param?, parts, queries]

theorem Query.nodes_select (s : Select) : (select s).nodes =
    ofOption s.distinctOn ++ ofColumns s.columns ++ ofFrom s.source ++ ofOption s.condition ++
      ofExprs s.groupBy ++ ofOption s.having ++ ofOrder s.orderBy ++ ofOption s.limit ++
      ofOption s.offset := by
  obtain ⟨distinct, distinctOn, columns, source, condition, groupBy, having, orderBy, limit,
    offset⟩ := s
  cases distinctOn <;> cases source <;> cases condition <;> cases having <;> cases limit <;>
    cases offset <;> rfl

theorem Query.nodes_compound (c : Compound) : (compound c).nodes =
    ofQueries c.branches ++ ofOrder c.orderBy ++ ofOption c.limit ++ ofOption c.offset := by
  obtain ⟨op, branches, orderBy, limit, offset⟩ := c
  cases limit <;> cases offset <;> rfl

/-- The number of expressions of a query in front of the queries below it. -/
def Query.lead : Query → Nat
  | select s => s.distinctOn.toList.length + s.columns.length
  | compound _ => 0

/-- The parameters of a query are those of the expressions and the queries directly below it, in
order. -/
theorem Query.params_eq (q : Query) : q.params =
    (q.parts.take q.lead).flatMap Expr.params ++ q.queries.flatMap params ++
      (q.parts.drop q.lead).flatMap Expr.params := by
  cases q with
  | select s =>
    have front : (s.distinctOn.toList ++ s.columns.map (·.expr)).length = lead (select s) := by
      rw [List.length_append, List.length_map, lead]
    rw [params, nodes_select, parts]
    simp only [List.append_assoc (s.distinctOn.toList ++ s.columns.map (·.expr))]
    rw [List.take_left' front, List.drop_left' front]
    simp only [ofOption_eq, ofColumns_eq, ofFrom_eq, ofExprs_eq, ofOrder_eq, params_append,
      params_map_node, params_flatMap_nodes, queries, List.flatMap_append, List.append_assoc]
  | compound c =>
    rw [params, nodes_compound, lead, List.take_zero, List.drop_zero, List.flatMap_nil,
      List.nil_append]
    simp only [ofOption_eq, ofQueries_eq, ofOrder_eq, params_append, params_map_node,
      params_flatMap_nodes, parts, queries, List.flatMap_append, List.append_assoc]

/-- A query has the parameters of the expressions and the queries directly below it. -/
theorem Query.params_perm (q : Query) :
    q.params.Perm (q.parts.flatMap Expr.params ++ q.queries.flatMap params) := by
  conv_rhs => rw [← List.take_append_drop q.lead q.parts, List.flatMap_append, List.append_assoc]
  rw [params_eq, List.append_assoc]
  exact List.perm_append_comm.append_left _

/-- What holds of the parameters of a tree holds wherever an expression in it is a parameter. -/
theorem everywhere_params {P : ParamRef → Prop} {Q : Query → Prop} :
    (∀ e : Expr, (∀ p ∈ e.params, P p) → e.Everywhere (fun _ => True) Q →
      e.Everywhere (fun x => ∀ p ∈ x.param?, P p) Q) ∧
    ∀ q : Query, (∀ p ∈ q.params, P p) → q.Everywhere (fun _ => True) Q →
      q.Everywhere (fun x => ∀ p ∈ x.param?, P p) Q := by
  refine tree_induction (fun e hes hqs hp h => ?_) fun q hes hqs hp h => ?_
  · rw [Expr.params_eq] at hp
    simp only [List.forall_mem_append, List.forall_mem_flatMap, Option.mem_toList] at hp
    exact ⟨hp.1, fun x hx => hes x hx (hp.2.1 x hx) (h.parts x hx),
      fun q hq => hqs q hq (hp.2.2 q hq) (h.queries q hq)⟩
  · simp only [q.params_perm.mem_iff, List.forall_mem_append, List.forall_mem_flatMap] at hp
    exact ⟨h.here, fun x hx => hes x hx (hp.1 x hx) (h.parts x hx),
      fun q' hq' => hqs q' hq' (hp.2 q' hq') (h.queries q' hq')⟩

/-- The parameters of a statement are those of its own expressions and queries, or of its pieces, in
order. -/
theorem Body.params_eq (b : Body) : b.params = b.parts.flatMap Expr.params ++
    b.queries.flatMap Query.params ++ b.fragments.filterMap Fragment.ref? := by
  refine congrArg (· ++ _) ?_
  change Node.params b.nodes = _
  cases b with
  | select s => rw [parts, queries, List.flatMap_nil, List.flatMap_singleton]; rfl
  | compound c => rw [parts, queries, List.flatMap_nil, List.flatMap_singleton]; rfl
  | insert i =>
    obtain ⟨table, columns, source, onConflict⟩ := i
    cases source with
    | values rows =>
      rw [queries, InsertSource.queries, List.flatMap_nil, List.append_nil, parts,
        InsertSource.parts, ← params_map_node, ← ofExprs_eq]
      rfl
    | query q =>
      rw [parts, queries, InsertSource.parts, InsertSource.queries, List.flatMap_nil,
        List.flatMap_singleton]
      rfl
    | defaultValues => rfl
  | update u =>
    rw [nodes, ofExprs_eq, ofOption_eq, ← List.map_append, params_map_node, queries,
      List.flatMap_nil, List.append_nil]
    rfl
  | delete d =>
    rw [nodes, ofOption_eq, params_map_node, queries, List.flatMap_nil, List.append_nil]
    rfl
  | transaction | verbatim => rfl

/-- A statement has the parameters of its own expressions and queries, or of its pieces. -/
theorem Body.params_perm (b : Body) : b.params.Perm (b.parts.flatMap Expr.params ++
    b.queries.flatMap Query.params ++ b.fragments.filterMap Fragment.ref?) :=
  .of_eq b.params_eq

end BoundSql
