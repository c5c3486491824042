import BoundSql.Proofs.Tree.Formed

/-!
# Children

The children of an expression, as the top-level expressions of a query or a statement, are the
expressions directly below it and the top-level expressions of the queries directly below it. A
forest is made of them alone: each node is that of an expression.
-/

namespace BoundSql

@[simp] theorem Expr.expr_node (e : Expr) : e.node.expr = e := by
  rw [node_eq]
  rfl

/-- The expressions of a forest that is made of some expressions and queries. -/
theorem Node.mem_map_expr {ns : List Node} {es : List Expr} {qs : List Query}
    (made : ∀ n, n ∈ ns ↔ n ∈ es.map Expr.node ∨ n ∈ qs.flatMap Query.nodes) {e : Expr} :
    e ∈ ns.map expr ↔ e ∈ es ∨ ∃ q ∈ qs, e ∈ q.roots := by
  constructor
  · intro member
    obtain ⟨n, hn, rfl⟩ := List.mem_map.1 member
    rcases (made n).1 hn with own | below
    · obtain ⟨x, hx, rfl⟩ := List.mem_map.1 own
      rw [Expr.expr_node]
      exact .inl hx
    · obtain ⟨q, hq, hn⟩ := List.mem_flatMap.1 below
      exact .inr ⟨q, hq, List.mem_map.2 ⟨n, hn, rfl⟩⟩
  · rintro (own | ⟨q, hq, below⟩)
    · have hn := (made e.node).2 (.inl (List.mem_map.2 ⟨e, own, rfl⟩))
      exact List.mem_map.2 ⟨e.node, hn, e.expr_node⟩
    · obtain ⟨n, hn, rfl⟩ := List.mem_map.1 below
      exact List.mem_map.2 ⟨n, (made n).2 (.inr (List.mem_flatMap.2 ⟨q, hq, hn⟩)), rfl⟩

theorem Query.mem_roots {q : Query} {e : Expr} :
    e ∈ q.roots ↔ e ∈ q.parts ∨ ∃ q' ∈ q.queries, e ∈ q'.roots :=
  Node.mem_map_expr fun _ => mem_nodes

theorem Body.mem_roots {b : Body} {e : Expr} :
    e ∈ b.roots ↔ e ∈ b.parts ∨ ∃ q ∈ b.queries, e ∈ q.roots :=
  Node.mem_map_expr fun _ => mem_nodes

theorem Expr.mem_children {e x : Expr} :
    x ∈ e.children ↔ x ∈ e.parts ∨ ∃ q ∈ e.queries, x ∈ q.roots := by
  rw [children, node_eq]
  exact Node.mem_map_expr fun _ => List.mem_append

/-! ## The forest of a statement -/

/-- A forest that is made of some expressions and queries is made of the nodes of expressions. -/
theorem Node.map_expr_node {ns : List Node} (made : ∀ n ∈ ns, n.expr.node = n) :
    (ns.map expr).map Expr.node = ns := by
  rw [List.map_map]
  exact (List.map_congr_left made).trans (List.map_id ns)

/-- Every node of a query is that of an expression. -/
theorem Query.node_of_mem_nodes {q : Query} : ∀ n ∈ q.nodes, n.expr.node = n := by
  have general : (∀ _ : Expr, True) ∧ ∀ q : Query, ∀ n ∈ q.nodes, n.expr.node = n := by
    refine tree_induction (fun _ _ _ => trivial) fun q _ ih n hn => ?_
    rcases mem_nodes.1 hn with own | below
    · obtain ⟨e, -, rfl⟩ := List.mem_map.1 own
      rw [Expr.expr_node]
    · obtain ⟨q', hq', hn⟩ := List.mem_flatMap.1 below
      exact ih q' hq' n hn
  exact general.2 q

theorem Node.node_of_made {n : Node} {es : List Expr} {qs : List Query}
    (h : n ∈ es.map Expr.node ∨ n ∈ qs.flatMap Query.nodes) : n.expr.node = n := by
  rcases h with own | below
  · obtain ⟨e, -, rfl⟩ := List.mem_map.1 own
    rw [Expr.expr_node]
  · obtain ⟨q, -, hn⟩ := List.mem_flatMap.1 below
    exact Query.node_of_mem_nodes n hn

/-- Below the node of an expression stand the nodes of its children. -/
theorem Expr.node_eq_children (e : Expr) : e.node = ⟨e, e.children.map node⟩ := by
  have below : e.children.map node = e.node.children :=
    Node.map_expr_node fun n hn => by
      rw [node_eq] at hn
      exact Node.node_of_made (List.mem_append.1 hn)
  rw [below, node_eq]
  rfl

end BoundSql
