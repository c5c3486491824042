import BoundSql.Proofs.Tree.Joins
import BoundSql.Proofs.Tree.Params
import BoundSql.Tree.Check

/-!
# Trees that keep the rules about their shape

A tree is formed if each node keeps the rules that concern the node alone: an operator has as many
operands as it takes, a CASE has an arm, a SELECT a column, a FROM a target and its joins stand at
targets, a compound has two branches, and an UPDATE an assignment. The only rules that such a tree
can break are those about widths: `Body.fits_check`.
-/

namespace BoundSql

/-! ## Nodes -/

/-- The expression keeps the rules about its own operands and arms. -/
def Expr.FormedHere : Expr → Prop
  | operation op operands => op.acceptsOperands operands.length = true
  | cases _ arms _ => arms ≠ []
  | _ => True

/-- The join stands at one of the targets but the first, and has a condition only if it can. -/
structure Join.Placed (targets : Nat) (j : Join) : Prop where
  behindFirst : 0 < j.position
  atTarget : j.position < targets
  condition : j.condition ≠ .none → j.kind ≠ .cross ∧ j.kind ≠ .natural

/-- A FROM has a target, and its joins stand at targets. -/
structure FromClause.FormedHere (f : FromClause) : Prop where
  targets : f.targets ≠ []
  joins : ∀ j ∈ f.joins, j.Placed f.targets.length

/-- The query keeps the rules about its own columns, joins and branches. -/
def Query.FormedHere : Query → Prop
  | select s => s.columns ≠ [] ∧ ∀ f ∈ s.source, f.FormedHere
  | compound c => 2 ≤ c.branches.length

/-! ## Trees -/

/-- The expression and all that stands below it keep the rules. -/
def Expr.Formed (e : Expr) : Prop := e.Everywhere FormedHere Query.FormedHere

/-- The query and all that stands below it keep the rules. -/
def Query.Formed (q : Query) : Prop := q.Everywhere Expr.FormedHere FormedHere

/-- The trees of a statement keep the rules, and an UPDATE has an assignment. -/
structure Body.Formed (b : Body) : Prop where
  parts : ∀ e ∈ b.parts, e.Formed
  queries : ∀ q ∈ b.queries, q.Formed
  assignments : ∀ u, b = .update u → u.assignments ≠ []

theorem Expr.formed_iff {e : Expr} : e.Formed ↔
    e.FormedHere ∧ (∀ x ∈ e.parts, x.Formed) ∧ ∀ q ∈ e.queries, q.Formed :=
  ⟨fun h => ⟨h.here, h.parts, h.queries⟩, fun h => ⟨h.1, h.2.1, h.2.2⟩⟩

theorem Query.formed_iff {q : Query} : q.Formed ↔
    q.FormedHere ∧ (∀ x ∈ q.parts, x.Formed) ∧ ∀ q' ∈ q.queries, q'.Formed :=
  ⟨fun h => ⟨h.here, h.parts, h.queries⟩, fun h => ⟨h.1, h.2.1, h.2.2⟩⟩

namespace Expr

variable {e : Expr} {es : List Expr} {q : Query}

@[simp] theorem formed_literal (l : Literal) : (literal l).Formed := by
  simp [formed_iff (e := literal _), FormedHere, parts, queries]

@[simp] theorem formed_name (i : Identifier) : (name i).Formed := by
  simp [formed_iff (e := name _), FormedHere, parts, queries]

@[simp] theorem formed_param (p : ParamRef) : (param p).Formed := by
  simp [formed_iff (e := param _), FormedHere, parts, queries]

@[simp] theorem formed_wildcard (table : Option String) : (wildcard table).Formed := by
  simp [formed_iff (e := wildcard _), FormedHere, parts, queries]

@[simp] theorem formed_call (function : String) (distinct : Bool) :
    (call function distinct es).Formed ↔ ∀ e ∈ es, e.Formed := by
  simp [formed_iff (e := call _ _ _), FormedHere, parts, queries]

@[simp] theorem formed_operation (op : Operator) : (operation op es).Formed ↔
    op.acceptsOperands es.length = true ∧ ∀ e ∈ es, e.Formed := by
  simp [formed_iff (e := operation _ _), FormedHere, parts, queries]

@[simp] theorem formed_subquery : (subquery q).Formed ↔ q.Formed := by
  simp [formed_iff (e := subquery _), FormedHere, parts, queries]

@[simp] theorem formed_cast (type : DataType) : (cast e type).Formed ↔ e.Formed := by
  simp [formed_iff (e := cast _ _), FormedHere, parts, queries]

theorem formed_cases {base otherwise : Option Expr} {arms : List (Expr × Expr)} :
    (cases base arms otherwise).Formed ↔ arms ≠ [] ∧ (∀ e ∈ base, e.Formed) ∧
      (∀ arm ∈ arms, arm.1.Formed ∧ arm.2.Formed) ∧ ∀ e ∈ otherwise, e.Formed := by
  have below : (∀ e ∈ arms.flatMap fun arm => [arm.1, arm.2], e.Formed) ↔
      ∀ arm ∈ arms, arm.1.Formed ∧ arm.2.Formed := by
    simp only [List.forall_mem_flatMap, List.forall_mem_cons, List.not_mem_nil, false_implies,
      implies_true, and_true]
  rw [formed_iff]
  simp only [FormedHere, parts, queries, List.forall_mem_append, Option.mem_toList, Option.mem_def,
    below, List.not_mem_nil, false_implies, implies_true, and_true, and_assoc]

end Expr

/-! ## Rules that can be broken -/

/-- The rule compares numbers of values or columns. -/
def Violation.IsWidth : Violation → Prop
  | rowWidth _ _ _ | insertWidth _ _ | branchWidths _ _ _ => True
  | _ => False

/-- No rule is broken, or one about widths. -/
def Fits (x : Except Violation Unit) : Prop := ∀ v, x = .error v → v.IsWidth

section Fits

variable {x : Except Violation Unit} {holds : Bool} {v : Violation}

theorem fits_ok : Fits (.ok ()) := by
  intro v broken
  cases broken

theorem fits_require (h : holds = true) (v : Violation) : Fits (require holds v) := by
  rw [require, if_pos h]
  exact fits_ok

theorem fits_require_width (holds : Bool) (h : v.IsWidth) : Fits (require holds v) := by
  unfold require
  split
  · exact fits_ok
  · intro v' broken
    cases broken
    exact h

theorem Fits.bind {k : Unit → Except Violation Unit} (hx : Fits x) (hk : Fits (k ())) :
    Fits (x >>= k) := by
  intro v broken
  cases x with
  | error v' =>
    cases broken
    exact hx v rfl
  | ok _ => exact hk v broken

theorem fits_forM {α : Type} {f : α → Except Violation Unit} {xs : List α}
    (h : ∀ a ∈ xs, Fits (f a)) : Fits (xs.forM f) := by
  induction xs with
  | nil => exact fits_ok
  | cons a as ih =>
    obtain ⟨first, rest⟩ := List.forall_mem_cons.1 h
    exact first.bind (ih rest)

end Fits

/-! ## Queries -/

theorem Join.fits_check {targets : Nat} {j : Join} (h : j.Placed targets) :
    Fits (j.check targets) := by
  obtain ⟨kind, position, condition⟩ := j
  obtain ⟨behindFirst, atTarget, allowed⟩ := h
  have placed : (decide (0 < position) && decide (position < targets)) = true := by
    simpa using And.intro behindFirst atTarget
  refine (fits_require placed _).bind ?_
  cases condition with
  | none => exact fits_ok
  | predicate e => exact fits_require (by simpa using allowed (by simp)) _
  | columns names => exact fits_require (by simpa using allowed (by simp)) _

theorem Target.fits_checkAll {ts : List Target}
    (h : ∀ q ∈ ts.filterMap (·.rows.query?), Fits q.check) : Fits (checkAll ts) := by
  induction ts with
  | nil => exact fits_ok
  | cons t ts ih =>
    obtain ⟨rows, label⟩ := t
    cases rows with
    | table name => exact ih h
    | subquery q =>
      obtain ⟨first, rest⟩ := List.forall_mem_cons.1 h
      exact first.bind (ih rest)

theorem Query.fits_checkBranches {qs : List Query} (h : ∀ q ∈ qs, Fits q.check) (op : SetOp)
    (expected : Option Nat) : Fits (checkBranches op expected qs) := by
  induction qs generalizing expected with
  | nil => exact fits_ok
  | cons q qs ih =>
    obtain ⟨first, rest⟩ := List.forall_mem_cons.1 h
    refine first.bind ?_
    split
    · exact ih rest _
    · exact ih rest _
    · rename_i n first _
      have width : (Violation.branchWidths op first n).IsWidth := trivial
      exact (fits_require_width _ width).bind (ih rest _)

theorem FromClause.fits_check {f : FromClause} (h : f.FormedHere)
    (below : ∀ q ∈ f.queries, Fits q.check) : Fits (do
      require (!f.targets.isEmpty) .noTargets
      Target.checkAll f.targets
      f.joins.forM (Join.check f.targets.length)) := by
  have some : (!f.targets.isEmpty) = true := by simpa using h.targets
  refine (fits_require some _).bind ((Target.fits_checkAll below).bind ?_)
  exact fits_forM fun j hj => Join.fits_check (h.joins j hj)

/-- In a formed query only rules about widths can be broken. -/
theorem Query.fits_check {q : Query} (h : q.Formed) : Fits q.check := by
  have general : (∀ _ : Expr, True) ∧ ∀ q : Query, q.Formed → Fits q.check := by
    refine tree_induction (fun _ _ _ => trivial) fun q _ ih h => ?_
    have below : ∀ q' ∈ q.queries, Fits q'.check := fun q' hq' => ih q' hq' (h.queries q' hq')
    cases q with
    | select s =>
      obtain ⟨columns, source⟩ := h.here
      obtain ⟨_, _, cs, source?, _, _, _, _, _, _⟩ := s
      have some : (!cs.isEmpty) = true := by simpa using columns
      rw [check, Select.check.eq_def]
      refine (fits_require some _).bind ?_
      cases source? with
      | none => exact fits_ok
      | some f =>
        obtain ⟨targets, joins⟩ := f
        exact FromClause.fits_check (source ⟨targets, joins⟩ rfl) below
    | compound c =>
      obtain ⟨op, branches, orderBy, limit, offset⟩ := c
      have enough : decide (2 ≤ branches.length) = true := decide_eq_true h.here
      rw [check, Compound.check]
      exact (fits_require enough _).bind (fits_checkBranches below op none)
  exact general.2 q h

theorem Expr.fits_check {e : Expr} (h : e.Formed) : Fits e.check := by
  cases e with
  | operation op operands => exact fits_require h.here _
  | cases base arms otherwise =>
    have nonempty : arms ≠ [] := h.here
    exact fits_require (by simpa using nonempty) _
  | subquery q => exact Query.fits_check (h.queries q (by simp [queries]))
  | literal | name | param | call | cast | wildcard => exact fits_ok

/-! ## All nodes of a tree -/

namespace Node

theorem mem_preorderAll {n : Node} {ns : List Node} :
    n ∈ preorderAll ns ↔ ∃ m ∈ ns, n ∈ m.preorder := by
  induction ns with
  | nil => simp [preorderAll]
  | cons m ms ih => simp [preorderAll, ih]

end Node

theorem Query.mem_nodes {q : Query} {n : Node} :
    n ∈ q.nodes ↔ n ∈ q.parts.map Expr.node ∨ n ∈ q.queries.flatMap nodes := by
  cases q with
  | select s =>
    simp only [nodes_select, Node.ofOption_eq, Node.ofColumns_eq, Node.ofFrom_eq, Node.ofExprs_eq,
      Node.ofOrder_eq, parts, queries, List.map_append, List.mem_append]
    tauto
  | compound c =>
    simp only [nodes_compound, Node.ofOption_eq, Node.ofQueries_eq, Node.ofOrder_eq, parts, queries,
      List.map_append, List.mem_append]
    tauto

theorem Body.mem_nodes {b : Body} {n : Node} :
    n ∈ b.nodes ↔ n ∈ b.parts.map Expr.node ∨ n ∈ b.queries.flatMap Query.nodes := by
  cases b with
  | insert i =>
    obtain ⟨table, columns, source, onConflict⟩ := i
    cases source <;> simp [nodes, parts, queries, InsertSource.parts, InsertSource.queries,
      Node.ofExprs_eq]
  | select | compound => simp [nodes, parts, queries, Query.nodes]
  | update | delete => simp [nodes, parts, queries, Node.ofExprs_eq, Node.ofOption_eq]
  | transaction | verbatim => simp [nodes, parts, queries]

/-- What holds of the nodes of some expressions and queries holds of a forest made of them. -/
theorem Node.forall_mem_preorderAll {ns : List Node} {es : List Expr} {qs : List Query}
    {P : Node → Prop} (made : ∀ n ∈ ns, n ∈ es.map Expr.node ∨ n ∈ qs.flatMap Query.nodes)
    (exprs : ∀ e ∈ es, ∀ n ∈ e.node.preorder, P n)
    (queries : ∀ q ∈ qs, ∀ n ∈ preorderAll q.nodes, P n) : ∀ n ∈ preorderAll ns, P n := by
  intro n hn
  obtain ⟨m, hm, hn⟩ := mem_preorderAll.1 hn
  rcases made m hm with expr | query
  · obtain ⟨e, he, rfl⟩ := List.mem_map.1 expr
    exact exprs e he n hn
  · obtain ⟨q, hq, hm⟩ := List.mem_flatMap.1 query
    exact queries q hq n (mem_preorderAll.2 ⟨m, hm, hn⟩)

/-- What holds of the nodes of a forest holds of those of the expressions and queries in it. -/
theorem Node.forall_of_preorderAll {ns : List Node} {es : List Expr} {qs : List Query}
    {P : Node → Prop} (inside : ∀ n, n ∈ es.map Expr.node ∨ n ∈ qs.flatMap Query.nodes → n ∈ ns)
    (h : ∀ n ∈ preorderAll ns, P n) : (∀ e ∈ es, ∀ n ∈ e.node.preorder, P n) ∧
      ∀ q ∈ qs, ∀ n ∈ preorderAll q.nodes, P n := by
  refine ⟨fun e he n hn => h n (mem_preorderAll.2 ⟨e.node, ?_, hn⟩), fun q hq n hn => ?_⟩
  · exact inside _ (.inl (List.mem_map.2 ⟨e, he, rfl⟩))
  · obtain ⟨m, hm, hn⟩ := mem_preorderAll.1 hn
    exact h n (mem_preorderAll.2 ⟨m, inside m (.inr (List.mem_flatMap.2 ⟨q, hq, hm⟩)), hn⟩)

section Everywhere

variable {P : Expr → Prop} {Q : Query → Prop}

/-- What holds everywhere in a tree holds everywhere below each of its nodes. -/
theorem everywhere_preorder :
    (∀ e : Expr, e.Everywhere P Q → ∀ n ∈ e.node.preorder, n.expr.Everywhere P Q) ∧
      ∀ q : Query, q.Everywhere P Q → ∀ n ∈ Node.preorderAll q.nodes, n.expr.Everywhere P Q := by
  refine tree_induction (fun e ihe ihq h => ?_) fun q ihe ihq h => ?_
  · intro n hn
    rw [Expr.node_eq, Node.preorder, List.mem_cons] at hn
    rcases hn with rfl | hn
    · exact h
    · exact Node.forall_mem_preorderAll (fun m hm => List.mem_append.1 hm)
        (fun x hx => ihe x hx (h.parts x hx)) (fun q hq => ihq q hq (h.queries q hq)) n hn
  · exact Node.forall_mem_preorderAll (fun m hm => Query.mem_nodes.1 hm)
      (fun x hx => ihe x hx (h.parts x hx)) (fun q' hq' => ihq q' hq' (h.queries q' hq'))

/-- What holds of all expressions of a tree holds everywhere in it. -/
theorem everywhere_of_preorder :
    (∀ e : Expr, (∀ n ∈ e.node.preorder, P n.expr) → e.Everywhere P fun _ => True) ∧
      ∀ q : Query, (∀ n ∈ Node.preorderAll q.nodes, P n.expr) → q.Everywhere P fun _ => True := by
  refine tree_induction (fun e ihe ihq h => ?_) fun q ihe ihq h => ?_
  · rw [Expr.node_eq, Node.preorder] at h
    obtain ⟨here, below⟩ := List.forall_mem_cons.1 h
    obtain ⟨exprs, queries⟩ := Node.forall_of_preorderAll (fun _ => List.mem_append.2) below
    exact ⟨here, fun x hx => ihe x hx (exprs x hx), fun q hq => ihq q hq (queries q hq)⟩
  · obtain ⟨exprs, queries⟩ := Node.forall_of_preorderAll (fun _ => Query.mem_nodes.2) h
    exact ⟨trivial, fun x hx => ihe x hx (exprs x hx), fun q' hq' => ihq q' hq' (queries q' hq')⟩

end Everywhere

/-! ## Statements -/

namespace Body

variable {b : Body}

/-- What holds everywhere in the trees of a statement holds everywhere below each expression. -/
theorem everywhere_exprs {P : Expr → Prop} {Q : Query → Prop}
    (parts : ∀ e ∈ b.parts, e.Everywhere P Q) (queries : ∀ q ∈ b.queries, q.Everywhere P Q) :
    ∀ e ∈ b.exprs, e.Everywhere P Q := by
  have nodes : ∀ n ∈ Node.preorderAll b.nodes, n.expr.Everywhere P Q :=
    Node.forall_mem_preorderAll (fun m hm => mem_nodes.1 hm)
      (fun e he => everywhere_preorder.1 e (parts e he))
      (fun q hq => everywhere_preorder.2 q (queries q hq))
  intro e he
  obtain ⟨n, hn, rfl⟩ := List.mem_map.1 he
  exact nodes n hn

/-- What holds of all expressions of a statement holds everywhere in its trees. -/
theorem everywhere_of_exprs {P : Expr → Prop} (h : ∀ e ∈ b.exprs, P e) :
    (∀ e ∈ b.parts, e.Everywhere P fun _ => True) ∧
      ∀ q ∈ b.queries, q.Everywhere P fun _ => True := by
  have nodes (n : Node) (hn : n ∈ Node.preorderAll b.nodes) : P n.expr :=
    h n.expr (List.mem_map.2 ⟨n, hn, rfl⟩)
  obtain ⟨exprs, queries⟩ := Node.forall_of_preorderAll (fun _ => mem_nodes.2) nodes
  exact ⟨fun e he => everywhere_of_preorder.1 e (exprs e he),
    fun q hq => everywhere_of_preorder.2 q (queries q hq)⟩

/-- All expressions of a formed statement are formed. -/
theorem Formed.exprs (h : b.Formed) : ∀ e ∈ b.exprs, e.Formed := everywhere_exprs h.parts h.queries

end Body

theorem Insert.fits_checkRows (width n : Nat) (rows : List (List Expr)) :
    Fits (checkRows width n rows) := by
  induction rows generalizing n with
  | nil => exact fits_ok
  | cons row rows ih =>
    have ofWidth : (Violation.rowWidth n row.length width).IsWidth := trivial
    exact (fits_require_width _ ofWidth).bind (ih (n + 1))

theorem Insert.fits_check {i : Insert} (h : ∀ q ∈ i.source.queries, q.Formed) : Fits i.check := by
  unfold check
  split
  · exact fits_checkRows _ _ _
  · rename_i q source
    have formed : q.Formed := h q (by simp [source, InsertSource.queries])
    refine (Query.fits_check formed).bind ?_
    split
    · rename_i n _
      have ofWidth : (Violation.insertWidth i.columns.length n).IsWidth := trivial
      exact fits_require_width _ ofWidth
    · exact fits_ok
  · exact fits_ok

/-- In a formed statement only rules about widths can be broken. -/
theorem Body.fits_check {b : Body} (h : b.Formed) : Fits b.check := by
  have top : Fits b.checkTop := by
    cases b with
    | select s => exact Query.fits_check (h.queries (.select s) (by simp [queries]))
    | compound c => exact Query.fits_check (h.queries (.compound c) (by simp [queries]))
    | insert i => exact Insert.fits_check h.queries
    | update u =>
      have some : (!u.assignments.isEmpty) = true := by simpa using h.assignments u rfl
      exact fits_require some _
    | delete | transaction | verbatim => exact fits_ok
  exact top.bind (fits_forM fun e he => Expr.fits_check (h.exprs e he))

end BoundSql
