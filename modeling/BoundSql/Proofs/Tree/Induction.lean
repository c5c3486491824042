import BoundSql.Tree.Expr

/-!
# Induction over expressions and queries

Directly below an expression or a query stand expressions, its `parts`, and queries, its `queries`.
Both are smaller, which gives one principle of induction for the two kinds of tree together.
-/

namespace BoundSql

namespace Expr

/-- The expressions that stand directly below an expression, queries not entered. -/
def parts : Expr → List Expr
  | literal _ | name _ | param _ | subquery _ | wildcard _ => []
  | call _ _ args => args
  | operation _ operands => operands
  | cases base arms otherwise =>
    base.toList ++ arms.flatMap (fun arm => [arm.1, arm.2]) ++ otherwise.toList
  | cast e _ => [e]

/-- The queries that stand directly below an expression. -/
def queries : Expr → List Query
  | subquery q => [q]
  | _ => []

end Expr

/-- The condition of a join, if it is an expression. -/
def JoinCondition.expr? : JoinCondition → Option Expr
  | predicate e => some e
  | none | columns _ => Option.none

/-- The query that a target reads, if it reads one. -/
def TableSource.query? : TableSource → Option Query
  | subquery q => some q
  | table _ => none

/-- The conditions of the joins of a FROM. -/
def FromClause.parts (f : FromClause) : List Expr := f.joins.filterMap (·.condition.expr?)

/-- The queries among the targets of a FROM. -/
def FromClause.queries (f : FromClause) : List Query := f.targets.filterMap (·.rows.query?)

namespace Query

/-- The expressions in the clauses of a query, queries not entered. -/
def parts : Query → List Expr
  | select s =>
    s.distinctOn.toList ++ s.columns.map (·.expr) ++ (s.source.map (·.parts)).getD [] ++
      s.condition.toList ++ s.groupBy ++ s.having.toList ++ s.orderBy.map (·.expr) ++
      s.limit.toList ++ s.offset.toList
  | compound c => c.orderBy.map (·.expr) ++ c.limit.toList ++ c.offset.toList

/-- The queries that stand directly below a query. -/
def queries : Query → List Query
  | select s => (s.source.map (·.queries)).getD []
  | compound c => c.branches

end Query

theorem Expr.sizeOf_lt_of_mem_parts {e x : Expr} (h : x ∈ e.parts) : sizeOf x < sizeOf e := by
  cases e with
  | literal | name | param | subquery | wildcard => cases h
  | call f distinct args =>
    have := List.sizeOf_lt_of_mem (show x ∈ args from h)
    simp only [call.sizeOf_spec]
    omega
  | operation op operands =>
    have := List.sizeOf_lt_of_mem (show x ∈ operands from h)
    simp only [operation.sizeOf_spec]
    omega
  | cases base arms otherwise =>
    simp only [parts, List.mem_append, Option.mem_toList, List.mem_flatMap, List.mem_cons,
      List.not_mem_nil, or_false] at h
    simp only [cases.sizeOf_spec]
    rcases h with (h | ⟨arm, harm, h⟩) | h
    · subst h
      simp only [Option.some.sizeOf_spec]
      omega
    · have := List.sizeOf_lt_of_mem harm
      obtain ⟨w, t⟩ := arm
      simp only [Prod.mk.sizeOf_spec] at this
      rcases h with rfl | rfl <;> omega
    · subst h
      simp only [Option.some.sizeOf_spec]
      omega
  | cast e type =>
    simp only [parts, List.mem_cons, List.not_mem_nil, or_false] at h
    subst h
    simp only [cast.sizeOf_spec]
    omega

theorem Expr.sizeOf_lt_of_mem_queries {e : Expr} {q : Query} (h : q ∈ e.queries) :
    sizeOf q < sizeOf e := by
  cases e with
  | subquery q =>
    simp only [queries, List.mem_cons, List.not_mem_nil, or_false] at h
    subst h
    simp only [subquery.sizeOf_spec]
    omega
  | _ => cases h

theorem FromClause.sizeOf_lt_of_mem_parts {f : FromClause} {x : Expr} (h : x ∈ f.parts) :
    sizeOf x < sizeOf f := by
  obtain ⟨targets, joins⟩ := f
  obtain ⟨⟨kind, position, condition⟩, hj, hx⟩ := List.mem_filterMap.1 h
  have := List.sizeOf_lt_of_mem hj
  cases condition with
  | predicate e =>
    cases hx
    simp only [Join.mk.sizeOf_spec, JoinCondition.predicate.sizeOf_spec,
      FromClause.mk.sizeOf_spec] at *
    omega
  | none | columns => cases hx

theorem FromClause.sizeOf_lt_of_mem_queries {f : FromClause} {q : Query} (h : q ∈ f.queries) :
    sizeOf q < sizeOf f := by
  obtain ⟨targets, joins⟩ := f
  obtain ⟨⟨rows, label⟩, ht, hq⟩ := List.mem_filterMap.1 h
  have := List.sizeOf_lt_of_mem ht
  cases rows with
  | subquery q' =>
    cases hq
    simp only [Target.mk.sizeOf_spec, TableSource.subquery.sizeOf_spec,
      FromClause.mk.sizeOf_spec] at *
    omega
  | table => cases hq

/-- An expression of an option is smaller than the option. -/
theorem sizeOf_lt_of_mem_toList {o : Option Expr} {x : Expr} (h : x ∈ o.toList) :
    sizeOf x < sizeOf o := by
  rw [Option.mem_toList] at h
  subst h
  simp only [Option.some.sizeOf_spec]
  omega

theorem Column.sizeOf_lt_of_mem {cs : List Column} {x : Expr} (h : x ∈ cs.map (·.expr)) :
    sizeOf x < sizeOf cs := by
  obtain ⟨⟨e, label⟩, hc, rfl⟩ := List.mem_map.1 h
  have := List.sizeOf_lt_of_mem hc
  simp only [Column.mk.sizeOf_spec] at this
  change sizeOf e < sizeOf cs
  omega

theorem OrderItem.sizeOf_lt_of_mem {os : List OrderItem} {x : Expr} (h : x ∈ os.map (·.expr)) :
    sizeOf x < sizeOf os := by
  obtain ⟨⟨e, order, collation⟩, ho, rfl⟩ := List.mem_map.1 h
  have := List.sizeOf_lt_of_mem ho
  simp only [OrderItem.mk.sizeOf_spec] at this
  change sizeOf e < sizeOf os
  omega

theorem Query.sizeOf_lt_of_mem_parts {q : Query} {x : Expr} (h : x ∈ q.parts) :
    sizeOf x < sizeOf q := by
  cases q with
  | select s =>
    obtain ⟨distinct, distinctOn, columns, source, condition, groupBy, having, orderBy, limit,
      offset⟩ := s
    simp only [parts, List.mem_append] at h
    simp only [select.sizeOf_spec, Select.mk.sizeOf_spec]
    rcases h with (((((((h | h) | h) | h) | h) | h) | h) | h) | h
    · have := sizeOf_lt_of_mem_toList h
      omega
    · have := Column.sizeOf_lt_of_mem h
      omega
    · cases source with
      | none => cases h
      | some f =>
        have := FromClause.sizeOf_lt_of_mem_parts (f := f) h
        simp only [Option.some.sizeOf_spec]
        omega
    · have := sizeOf_lt_of_mem_toList h
      omega
    · have := List.sizeOf_lt_of_mem h
      omega
    · have := sizeOf_lt_of_mem_toList h
      omega
    · have := OrderItem.sizeOf_lt_of_mem h
      omega
    · have := sizeOf_lt_of_mem_toList h
      omega
    · have := sizeOf_lt_of_mem_toList h
      omega
  | compound c =>
    obtain ⟨op, branches, orderBy, limit, offset⟩ := c
    simp only [parts, List.mem_append] at h
    simp only [compound.sizeOf_spec, Compound.mk.sizeOf_spec]
    rcases h with (h | h) | h
    · have := OrderItem.sizeOf_lt_of_mem h
      omega
    · have := sizeOf_lt_of_mem_toList h
      omega
    · have := sizeOf_lt_of_mem_toList h
      omega

theorem Query.sizeOf_lt_of_mem_queries {q q' : Query} (h : q' ∈ q.queries) :
    sizeOf q' < sizeOf q := by
  cases q with
  | select s =>
    obtain ⟨distinct, distinctOn, columns, source, condition, groupBy, having, orderBy, limit,
      offset⟩ := s
    cases source with
    | none => cases h
    | some f =>
      have := FromClause.sizeOf_lt_of_mem_queries (f := f) h
      simp only [select.sizeOf_spec, Select.mk.sizeOf_spec, Option.some.sizeOf_spec]
      omega
  | compound c =>
    obtain ⟨op, branches, orderBy, limit, offset⟩ := c
    have := List.sizeOf_lt_of_mem (show q' ∈ branches from h)
    simp only [compound.sizeOf_spec, Compound.mk.sizeOf_spec]
    omega

/-- What holds of an expression or query as soon as it holds directly below holds of all
expressions and queries. -/
theorem tree_induction {P : Expr → Prop} {Q : Query → Prop}
    (expr : ∀ e, (∀ x ∈ e.parts, P x) → (∀ q ∈ e.queries, Q q) → P e)
    (query : ∀ q, (∀ x ∈ q.parts, P x) → (∀ q' ∈ q.queries, Q q') → Q q) :
    (∀ e, P e) ∧ ∀ q, Q q := by
  have below (n : Nat) : (∀ e, sizeOf e < n → P e) ∧ ∀ q, sizeOf q < n → Q q := by
    induction n with
    | zero =>
      exact ⟨fun e h => absurd h (Nat.not_lt_zero _), fun q h => absurd h (Nat.not_lt_zero _)⟩
    | succ n ih =>
      refine ⟨fun e he => expr e (fun x hx => ?_) fun q hq => ?_,
        fun q hq => query q (fun x hx => ?_) fun q' hq' => ?_⟩
      · have := Expr.sizeOf_lt_of_mem_parts hx
        exact ih.1 x (by omega)
      · have := Expr.sizeOf_lt_of_mem_queries hq
        exact ih.2 q (by omega)
      · have := Query.sizeOf_lt_of_mem_parts hx
        exact ih.1 x (by omega)
      · have := Query.sizeOf_lt_of_mem_queries hq'
        exact ih.2 q' (by omega)
  exact ⟨fun e => (below (sizeOf e + 1)).1 e (Nat.lt_succ_self _),
    fun q => (below (sizeOf q + 1)).2 q (Nat.lt_succ_self _)⟩

mutual

/-- `P` holds of the expression and of every one below it, and `Q` of every query below it. -/
inductive Expr.Everywhere (P : Expr → Prop) (Q : Query → Prop) : Expr → Prop
  | intro {e : Expr} (here : P e) (parts : ∀ x ∈ e.parts, x.Everywhere P Q)
    (queries : ∀ q ∈ e.queries, q.Everywhere P Q) : e.Everywhere P Q

/-- `Q` holds of the query and of every one below it, and `P` of every expression below it. -/
inductive Query.Everywhere (P : Expr → Prop) (Q : Query → Prop) : Query → Prop
  | intro {q : Query} (here : Q q) (parts : ∀ x ∈ q.parts, x.Everywhere P Q)
    (queries : ∀ q' ∈ q.queries, q'.Everywhere P Q) : q.Everywhere P Q

end

section Everywhere

variable {P : Expr → Prop} {Q : Query → Prop}

theorem Expr.Everywhere.here {e : Expr} : e.Everywhere P Q → P e
  | .intro h _ _ => h

theorem Expr.Everywhere.parts {e : Expr} : e.Everywhere P Q → ∀ x ∈ e.parts, x.Everywhere P Q
  | .intro _ h _ => h

theorem Expr.Everywhere.queries {e : Expr} : e.Everywhere P Q → ∀ q ∈ e.queries, q.Everywhere P Q
  | .intro _ _ h => h

theorem Query.Everywhere.here {q : Query} : q.Everywhere P Q → Q q
  | .intro h _ _ => h

theorem Query.Everywhere.parts {q : Query} : q.Everywhere P Q → ∀ x ∈ q.parts, x.Everywhere P Q
  | .intro _ h _ => h

theorem Query.Everywhere.queries {q : Query} :
    q.Everywhere P Q → ∀ q' ∈ q.queries, q'.Everywhere P Q
  | .intro _ _ h => h

/-- What holds of an expression with nothing below it holds everywhere in it. -/
theorem Expr.Everywhere.leaf {e : Expr} (here : P e) (parts : e.parts = [])
    (queries : e.queries = []) : e.Everywhere P Q := by
  refine .intro here ?_ ?_
  · rw [parts]
    exact List.forall_mem_nil _
  · rw [queries]
    exact List.forall_mem_nil _

/-- What holds of all expressions and queries holds everywhere. -/
theorem everywhere_of_forall (hP : ∀ e, P e) (hQ : ∀ q, Q q) :
    (∀ e : Expr, e.Everywhere P Q) ∧ ∀ q : Query, q.Everywhere P Q :=
  tree_induction (fun e hes hqs => ⟨hP e, hes, hqs⟩) fun q hes hqs => ⟨hQ q, hes, hqs⟩

variable {P' : Expr → Prop} {Q' : Query → Prop}

/-- What holds everywhere can be weakened. -/
theorem everywhere_mono (hP : ∀ e, P e → P' e) (hQ : ∀ q, Q q → Q' q) :
    (∀ e : Expr, e.Everywhere P Q → e.Everywhere P' Q') ∧
      ∀ q : Query, q.Everywhere P Q → q.Everywhere P' Q' := by
  refine tree_induction (fun e ihe ihq h => ?_) fun q ihe ihq h => ?_
  · exact ⟨hP e h.here, fun x hx => ihe x hx (h.parts x hx),
      fun q hq => ihq q hq (h.queries q hq)⟩
  · exact ⟨hQ q h.here, fun x hx => ihe x hx (h.parts x hx),
      fun q' hq' => ihq q' hq' (h.queries q' hq')⟩

theorem Expr.Everywhere.mono (hP : ∀ e, P e → P' e) (hQ : ∀ q, Q q → Q' q) {e : Expr}
    (h : e.Everywhere P Q) : e.Everywhere P' Q' :=
  (everywhere_mono hP hQ).1 e h

theorem Query.Everywhere.mono (hP : ∀ e, P e → P' e) (hQ : ∀ q, Q q → Q' q) {q : Query}
    (h : q.Everywhere P Q) : q.Everywhere P' Q' :=
  (everywhere_mono hP hQ).2 q h

/-- What holds everywhere and something else that does hold everywhere together. -/
theorem everywhere_and :
    (∀ e : Expr, e.Everywhere P Q → e.Everywhere P' Q' →
        e.Everywhere (fun e => P e ∧ P' e) fun q => Q q ∧ Q' q) ∧
      ∀ q : Query, q.Everywhere P Q → q.Everywhere P' Q' →
        q.Everywhere (fun e => P e ∧ P' e) fun q => Q q ∧ Q' q := by
  refine tree_induction (fun e ihe ihq h h' => ?_) fun q ihe ihq h h' => ?_
  · exact ⟨⟨h.here, h'.here⟩, fun x hx => ihe x hx (h.parts x hx) (h'.parts x hx),
      fun q hq => ihq q hq (h.queries q hq) (h'.queries q hq)⟩
  · exact ⟨⟨h.here, h'.here⟩, fun x hx => ihe x hx (h.parts x hx) (h'.parts x hx),
      fun q' hq' => ihq q' hq' (h.queries q' hq') (h'.queries q' hq')⟩

end Everywhere

end BoundSql
