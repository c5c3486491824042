import BoundSql.Proofs.Tree.Branches

/-!
# Trees that are checked

The check of a statement passes over its tree in two ways: by itself from query to query, and over
all expressions in their order. Between them they reach every node, so that a tree with which the
check finds no fault is formed: `Body.formed_of_check`.
-/

namespace BoundSql

/-- A query that passes its check keeps the rules about its own clauses, and the queries directly
below it pass theirs. -/
theorem Query.formedHere_of_check {q : Query} (passes : q.check = .ok ()) :
    q.FormedHere ∧ ∀ q' ∈ q.queries, q'.check = .ok () := by
  cases q with
  | select s =>
    rw [check] at passes
    exact Select.check_eq_ok_iff.1 passes
  | compound c =>
    obtain ⟨op, branches, orderBy, limit, offset⟩ := c
    rw [check, Compound.check, check_bind_eq_ok_iff, require_eq_ok_iff, decide_eq_true_eq] at passes
    exact ⟨passes.1, (checkBranches_eq_ok_iff.1 passes.2).1⟩

/-- An expression that passes its check keeps the rules about its own operands and arms, and the
query that it holds passes its own. -/
theorem Expr.formedHere_of_check {e : Expr} (passes : e.check = .ok ()) :
    e.FormedHere ∧ ∀ q ∈ e.queries, q.check = .ok () := by
  cases e with
  | operation op operands => exact ⟨require_eq_ok_iff.1 passes, by simp [queries]⟩
  | cases base arms otherwise =>
    have some := require_eq_ok_iff.1 passes
    exact ⟨by simpa [FormedHere] using some, by simp [queries]⟩
  | subquery q => exact ⟨trivial, List.forall_mem_singleton.2 passes⟩
  | literal | name | param | call | cast | wildcard => exact ⟨trivial, by simp [queries]⟩

/-- A tree is formed if all expressions in it pass their checks, and the query that it is passes its
own. -/
theorem formed_of_checks :
    (∀ e : Expr, (∀ n ∈ e.node.preorder, n.expr.check = .ok ()) → e.Formed) ∧
      ∀ q : Query, q.check = .ok () → (∀ n ∈ Node.preorderAll q.nodes, n.expr.check = .ok ()) →
        q.Formed := by
  refine tree_induction (fun e hes hqs all => ?_) fun q hes hqs passes all => ?_
  · rw [Expr.node_eq, Node.preorder] at all
    obtain ⟨here, below⟩ := List.forall_mem_cons.1 all
    obtain ⟨exprs, queries⟩ := Node.forall_of_preorderAll (fun _ => List.mem_append.2) below
    obtain ⟨formed, checks⟩ := Expr.formedHere_of_check here
    exact Expr.formed_iff.2 ⟨formed, fun x hx => hes x hx (exprs x hx),
      fun q hq => hqs q hq (checks q hq) (queries q hq)⟩
  · obtain ⟨exprs, queries⟩ := Node.forall_of_preorderAll (fun _ => Query.mem_nodes.2) all
    obtain ⟨formed, checks⟩ := Query.formedHere_of_check passes
    exact Query.formed_iff.2 ⟨formed, fun x hx => hes x hx (exprs x hx),
      fun q' hq' => hqs q' hq' (checks q' hq') (queries q' hq')⟩

namespace Body

variable {b : Body}

/-- The rules about the statement itself include those about its own queries. -/
theorem check_queries_of_checkTop (passes : b.checkTop = .ok ()) :
    ∀ q ∈ b.queries, q.check = .ok () := by
  cases b with
  | select s | compound c =>
    refine List.forall_mem_singleton.2 ?_
    rw [Query.check]
    exact passes
  | insert i =>
    obtain ⟨table, columns, source, onConflict⟩ := i
    cases source with
    | query q => exact List.forall_mem_singleton.2 (check_bind_eq_ok_iff.1 passes).1
    | values | defaultValues => simp [queries, InsertSource.queries]
  | update | delete | transaction | verbatim => simp [queries]

/-- The tree of a statement that passes the check is formed. -/
theorem formed_of_check (passes : b.check = .ok ()) : b.Formed := by
  obtain ⟨top, each⟩ := check_bind_eq_ok_iff.1 passes
  have checks (n : Node) (hn : n ∈ Node.preorderAll b.nodes) : n.expr.check = .ok () :=
    check_forM_eq_ok_iff.1 each n.expr (List.mem_map.2 ⟨n, hn, rfl⟩)
  obtain ⟨exprs, queries⟩ := Node.forall_of_preorderAll (fun _ => mem_nodes.2) checks
  refine ⟨fun e he => formed_of_checks.1 e (exprs e he), fun q hq => formed_of_checks.2 q
    (check_queries_of_checkTop top q hq) (queries q hq), ?_⟩
  rintro u rfl
  simpa using require_eq_ok_iff.1 top

end Body

end BoundSql
