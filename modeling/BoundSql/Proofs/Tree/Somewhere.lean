import BoundSql.Proofs.Tree.Body
import Mathlib.Logic.Basic

/-!
# What stands somewhere in a tree

`Somewhere P Q` says that `P` holds of some expression of a tree, or `Q` of some query, at whatever
depth. Under what holds everywhere, `P` and `Q` can be replaced: `somewhere_congr`.
-/

namespace BoundSql

mutual

/-- `P` holds of the expression or of one below it, or `Q` of a query below it. -/
inductive Expr.Somewhere (P : Expr → Prop) (Q : Query → Prop) : Expr → Prop
  | here {e : Expr} (h : P e) : e.Somewhere P Q
  | part {e x : Expr} (member : x ∈ e.parts) (h : x.Somewhere P Q) : e.Somewhere P Q
  | query {e : Expr} {q : Query} (member : q ∈ e.queries) (h : q.Somewhere P Q) : e.Somewhere P Q

/-- `Q` holds of the query or of one below it, or `P` of an expression below it. -/
inductive Query.Somewhere (P : Expr → Prop) (Q : Query → Prop) : Query → Prop
  | here {q : Query} (h : Q q) : q.Somewhere P Q
  | part {q : Query} {x : Expr} (member : x ∈ q.parts) (h : x.Somewhere P Q) : q.Somewhere P Q
  | query {q q' : Query} (member : q' ∈ q.queries) (h : q'.Somewhere P Q) : q.Somewhere P Q

end

/-- `P` holds of an expression in the statement, or `Q` of a query in it. -/
def Body.Somewhere (P : Expr → Prop) (Q : Query → Prop) (b : Body) : Prop :=
  (∃ e ∈ b.parts, e.Somewhere P Q) ∨ ∃ q ∈ b.queries, q.Somewhere P Q

section Somewhere

variable {P P' : Expr → Prop} {Q Q' : Query → Prop}

theorem Expr.somewhere_iff {e : Expr} : e.Somewhere P Q ↔
    P e ∨ (∃ x ∈ e.parts, x.Somewhere P Q) ∨ ∃ q ∈ e.queries, q.Somewhere P Q := by
  constructor
  · rintro (here | ⟨member, below⟩ | ⟨member, below⟩)
    · exact .inl here
    · exact .inr (.inl ⟨_, member, below⟩)
    · exact .inr (.inr ⟨_, member, below⟩)
  · rintro (here | ⟨x, member, below⟩ | ⟨q, member, below⟩)
    · exact .here here
    · exact .part member below
    · exact .query member below

theorem Query.somewhere_iff {q : Query} : q.Somewhere P Q ↔
    Q q ∨ (∃ x ∈ q.parts, x.Somewhere P Q) ∨ ∃ q' ∈ q.queries, q'.Somewhere P Q := by
  constructor
  · rintro (here | ⟨member, below⟩ | ⟨member, below⟩)
    · exact .inl here
    · exact .inr (.inl ⟨_, member, below⟩)
    · exact .inr (.inr ⟨_, member, below⟩)
  · rintro (here | ⟨x, member, below⟩ | ⟨q', member, below⟩)
    · exact .here here
    · exact .part member below
    · exact .query member below

/-- Below the expressions and queries of two lists the same is found, if below each of them is. -/
theorem somewhere_below_congr {es : List Expr} {qs : List Query}
    (hes : ∀ x ∈ es, (x.Somewhere P Q ↔ x.Somewhere P' Q'))
    (hqs : ∀ q ∈ qs, (q.Somewhere P Q ↔ q.Somewhere P' Q')) :
    ((∃ x ∈ es, x.Somewhere P Q) ∨ ∃ q ∈ qs, q.Somewhere P Q) ↔
      (∃ x ∈ es, x.Somewhere P' Q') ∨ ∃ q ∈ qs, q.Somewhere P' Q' :=
  or_congr (exists_congr fun x => and_congr_right (hes x))
    (exists_congr fun q => and_congr_right (hqs q))

/-- What is equivalent everywhere in a tree is found in it or not alike. -/
theorem somewhere_congr :
    (∀ e : Expr, e.Everywhere (fun x => P x ↔ P' x) (fun q => Q q ↔ Q' q) →
        (e.Somewhere P Q ↔ e.Somewhere P' Q')) ∧
      ∀ q : Query, q.Everywhere (fun x => P x ↔ P' x) (fun q => Q q ↔ Q' q) →
        (q.Somewhere P Q ↔ q.Somewhere P' Q') := by
  refine tree_induction (fun e hes hqs h => ?_) fun q hes hqs h => ?_
  · rw [Expr.somewhere_iff, Expr.somewhere_iff]
    exact or_congr h.here (somewhere_below_congr (fun x hx => hes x hx (h.parts x hx))
      fun q hq => hqs q hq (h.queries q hq))
  · rw [Query.somewhere_iff, Query.somewhere_iff]
    exact or_congr h.here (somewhere_below_congr (fun x hx => hes x hx (h.parts x hx))
      fun q' hq' => hqs q' hq' (h.queries q' hq'))

theorem exists_mem_exists {ι α : Type} {xs : List α} {R : ι → α → Prop} :
    (∃ x ∈ xs, ∃ i, R i x) ↔ ∃ i, ∃ x ∈ xs, R i x := by
  simp only [← exists_and_left]
  exact exists_comm

/-- One of several things is found in a tree if some of them is. -/
theorem somewhere_exists {ι : Type} {P : ι → Expr → Prop} {Q : ι → Query → Prop} :
    (∀ e : Expr, e.Somewhere (fun x => ∃ i, P i x) (fun q => ∃ i, Q i q) ↔
        ∃ i, e.Somewhere (P i) (Q i)) ∧
      ∀ q : Query, q.Somewhere (fun x => ∃ i, P i x) (fun q => ∃ i, Q i q) ↔
        ∃ i, q.Somewhere (P i) (Q i) := by
  refine tree_induction (fun e hes hqs => ?_) fun q hes hqs => ?_
  · have parts := exists_congr fun x => and_congr_right (hes x)
    have queries := exists_congr fun q => and_congr_right (hqs q)
    simp only [Expr.somewhere_iff (e := e), exists_or, parts, queries, exists_mem_exists]
  · have parts := exists_congr fun x => and_congr_right (hes x)
    have queries := exists_congr fun q' => and_congr_right (hqs q')
    simp only [Query.somewhere_iff (q := q), exists_or, parts, queries, exists_mem_exists]

/-- What follows wherever something holds follows if it holds somewhere. -/
theorem somewhere_elim {a : Prop} (hP : ∀ e, P e → a) (hQ : ∀ q, Q q → a) :
    (∀ e : Expr, e.Somewhere P Q → a) ∧ ∀ q : Query, q.Somewhere P Q → a := by
  refine tree_induction (fun e hes hqs h => ?_) fun q hes hqs h => ?_
  · rcases Expr.somewhere_iff.1 h with here | ⟨x, hx, below⟩ | ⟨q, hq, below⟩
    · exact hP e here
    · exact hes x hx below
    · exact hqs q hq below
  · rcases Query.somewhere_iff.1 h with here | ⟨x, hx, below⟩ | ⟨q', hq', below⟩
    · exact hQ q here
    · exact hes x hx below
    · exact hqs q' hq' below

/-- What a function does not bring in or take away, and what does not depend on what stands below,
is found in a mapped tree just if it is found in the tree. -/
theorem somewhere_mapped {f : Expr → Expr}
    (hf : ∀ e : Expr, (f e).Somewhere P Q ↔ e.Somewhere P Q)
    (hP : ∀ e : Expr, P (e.mapBelow f) ↔ P e) (hQ : ∀ q : Query, Q (q.mapped f) ↔ Q q) :
    (∀ e : Expr, (e.mapped f).Somewhere P Q ↔ e.Somewhere P Q) ∧
      ∀ q : Query, (q.mapped f).Somewhere P Q ↔ q.Somewhere P Q := by
  refine tree_induction (fun e hes hqs => ?_) fun q hes hqs => ?_
  · rw [Expr.mapped_eq_mapBelow, hf, Expr.somewhere_iff, Expr.somewhere_iff (e := e), hP,
      Expr.parts_mapBelow, Expr.queries_mapBelow]
    simp only [List.mem_map, exists_exists_and_eq_and]
    exact or_congr_right (or_congr (exists_congr fun x => and_congr_right (hes x))
      (exists_congr fun q => and_congr_right (hqs q)))
  · rw [Query.somewhere_iff, Query.somewhere_iff (q := q), hQ, Query.parts_mapped,
      Query.queries_mapped]
    simp only [List.mem_map, exists_exists_and_eq_and]
    exact or_congr_right (or_congr (exists_congr fun x => and_congr_right (hes x))
      (exists_congr fun q' => and_congr_right (hqs q')))

namespace Body

variable {b : Body}

/-- What is equivalent everywhere in a statement is found in it or not alike. -/
theorem somewhere_congr
    (hparts : ∀ e ∈ b.parts, e.Everywhere (fun x => P x ↔ P' x) fun q => Q q ↔ Q' q)
    (hqueries : ∀ q ∈ b.queries, q.Everywhere (fun x => P x ↔ P' x) fun q => Q q ↔ Q' q) :
    b.Somewhere P Q ↔ b.Somewhere P' Q' :=
  somewhere_below_congr (fun e he => BoundSql.somewhere_congr.1 e (hparts e he))
    fun q hq => BoundSql.somewhere_congr.2 q (hqueries q hq)

/-- One of several things is found in a statement if some of them is. -/
theorem somewhere_exists {ι : Type} {P : ι → Expr → Prop} {Q : ι → Query → Prop} :
    b.Somewhere (fun x => ∃ i, P i x) (fun q => ∃ i, Q i q) ↔ ∃ i, b.Somewhere (P i) (Q i) := by
  simp only [Body.Somewhere, BoundSql.somewhere_exists.1, BoundSql.somewhere_exists.2,
    exists_mem_exists, exists_or]

end Body

end Somewhere

end BoundSql
