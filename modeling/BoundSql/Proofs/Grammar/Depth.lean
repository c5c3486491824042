import BoundSql.Proofs.Grammar.Builds
import BoundSql.Proofs.Script.Parsed
import BoundSql.Proofs.Tree.Children
import BoundSql.Tree.Equality

/-!
# The limit on nesting

The levels of nesting are counted where the grammar reads an expression or a query inside another.
An infix form, a cast and a test for NULL are put around the expression in front of them, in a loop
that counts nothing, so a tree can be deeper than the limit. Apart from the steps that such a form
adds, no path down from a top-level expression is longer than the limit:
`Statement.Parsed.length_path_le`.
-/

namespace BoundSql

/-! ## Paths -/

/-- A path down through a tree: each expression stands directly below the one in front of it. -/
def Expr.IsPath (path : List Expr) : Prop := path.IsChain fun e x => x ∈ e.children

namespace Expr

/-- The expression that a form was put around while it was read: the operand in front of an infix
form or a cast, and the test that an infix NOT or IS NOT negates. Signs and NOT stand in front of
their operand and are put around nothing. -/
def wrapped? : Expr → Option Expr
  | cast e _ => some e
  | operation .not [e] => if e.isTest then some e else none
  | operation .minus [_] | operation .bitNot [_] => none
  | operation _ (e :: _) => some e
  | _ => none

/-- The number of steps of a path that lead to what a form was put around. -/
def wraps : List Expr → Nat
  | e :: x :: path => (if e.wrapped? = some x then 1 else 0) + wraps (x :: path)
  | _ => 0

/-- Without the steps to what a form was put around, no path from the expression has more than `n`
expressions. -/
def Within (n : Nat) (e : Expr) : Prop :=
  ∀ path, IsPath (e :: path) → (e :: path).length ≤ n + wraps (e :: path)

theorem wrapped?_infix {op : Operator} {lhs : Expr} {es : List Expr} (h : es ≠ []) :
    (operation op (lhs :: es)).wrapped? = some lhs := by
  obtain ⟨e, rest, rfl⟩ := List.exists_cons_of_ne_nil h
  cases op <;> rfl

theorem wrapped?_chain {op : Operator} {lhs : Expr} {es : List Expr} (h : op.flattens = true) :
    (operation op (lhs :: es)).wrapped? = some lhs := by
  cases op with
  | and | or | concat | plus | star => rfl
  | _ => cases h

/-- Below an expression that holds no query stand the expressions directly below it. -/
theorem mem_children_of_queries {e x : Expr} (h : e.queries = []) :
    x ∈ e.children ↔ x ∈ e.parts := by
  rw [mem_children, h]
  simp

theorem mem_children_subquery {q : Query} {x : Expr} : x ∈ (subquery q).children ↔ x ∈ q.roots := by
  rw [mem_children]
  simp [parts, queries]

namespace Within

variable {n : Nat} {e x : Expr}

theorem mono (h : e.Within n) : e.Within (n + 1) := by
  intro path isPath
  have := h path isPath
  omega

/-- What holds below an expression gives what holds of it, the step to a wrapped expression being
free. -/
theorem of_children
    (h : ∀ x ∈ e.children, x.Within n ∨ e.wrapped? = some x ∧ x.Within (n + 1)) :
    e.Within (n + 1) := by
  intro path isPath
  cases path with
  | nil =>
    rw [List.length_singleton]
    omega
  | cons x path =>
    obtain ⟨child, rest⟩ := List.isChain_cons_cons.1 isPath
    rw [wraps, List.length_cons]
    rcases h x child with below | ⟨wrapped, below⟩
    · have := below path rest
      omega
    · have := below path rest
      rw [if_pos wrapped]
      omega

theorem child (h : e.Within n) (hx : x ∈ e.children) : x.Within n := by
  intro path isPath
  have longer := h (x :: path) (List.isChain_cons_cons.2 ⟨hx, isPath⟩)
  rw [wraps, List.length_cons] at longer
  have step : (if e.wrapped? = some x then 1 else 0) ≤ 1 := by split <;> omega
  omega

theorem child_of_not_wrapped (h : e.Within (n + 1)) (hx : x ∈ e.children)
    (free : e.wrapped? ≠ some x) : x.Within n := by
  intro path isPath
  have longer := h (x :: path) (List.isChain_cons_cons.2 ⟨hx, isPath⟩)
  rw [wraps, List.length_cons, if_neg free] at longer
  omega

/-- An expression that holds no query, over expressions one level deeper. -/
theorem of_parts (queries : e.queries = []) (h : ∀ x ∈ e.parts, x.Within n) : e.Within (n + 1) := by
  apply of_children
  intro x hx
  exact .inl (h x ((mem_children_of_queries queries).1 hx))

theorem roots {q : Query} (h : (subquery q).Within n) : ∀ x ∈ q.roots, x.Within n := by
  intro x hx
  exact h.child (mem_children_subquery.2 hx)

end Within

/-- A query stands one level above its top-level expressions. -/
theorem within_subquery {n : Nat} {q : Query} :
    (subquery q).Within (n + 1) ↔ ∀ x ∈ q.roots, x.Within n := by
  constructor
  · intro h x hx
    refine h.child_of_not_wrapped (mem_children_subquery.2 hx) ?_
    intro wrapped
    cases wrapped
  · intro h
    apply Within.of_children
    intro x hx
    exact .inl (h x (mem_children_subquery.1 hx))

/-- An infix form over an operand on the same level and others one level deeper. -/
theorem within_infix {n : Nat} {op : Operator} {lhs : Expr} {es : List Expr}
    (wrapped : (operation op (lhs :: es)).wrapped? = some lhs) (hlhs : lhs.Within (n + 1))
    (hes : ∀ e ∈ es, e.Within n) : (operation op (lhs :: es)).Within (n + 1) := by
  apply Within.of_children
  intro x hx
  rcases List.mem_cons.1 ((mem_children_of_queries rfl).1 hx) with rfl | hx
  · exact .inr ⟨wrapped, hlhs⟩
  · exact .inl (hes x hx)

/-- One more operand of a chain, one level deeper than the chain. -/
theorem within_chained {n : Nat} {op : Operator} {es : List Expr} {e : Expr}
    (flattens : op.flattens = true) (h : (operation op es).Within (n + 1)) (he : e.Within n) :
    (operation op (es ++ [e])).Within (n + 1) := by
  cases es with
  | nil => exact within_infix (wrapped?_chain flattens) he.mono (by simp)
  | cons first es =>
    apply Within.of_children
    intro x hx
    -- Operands that are equal cannot be told apart, so the first one is looked for by its value.
    by_cases same : first = x
    · subst same
      exact .inr ⟨wrapped?_chain flattens,
        h.child ((mem_children_of_queries rfl).2 List.mem_cons_self)⟩
    · left
      rcases List.mem_append.1 ((mem_children_of_queries rfl).1 hx) with hx | hx
      · refine h.child_of_not_wrapped ((mem_children_of_queries rfl).2 hx) ?_
        rw [wrapped?_chain flattens]
        intro wrapped
        exact same (Option.some.inj wrapped)
      · rw [List.mem_singleton.1 hx]
        exact he

end Expr

namespace Grammar

/-- Each level of the grammar allows one more expression in a path, what is wrapped aside. A query
is on the level of an expression that holds it. -/
theorem builds_within {T : Token → Prop} (n : Nat) : Builds T (Expr.Within n) (Expr.Within (n + 1))
    (fun q => (Expr.subquery q).Within n) (fun q => (Expr.subquery q).Within (n + 1)) where
  literal l := .of_parts rfl (by simp [Expr.parts])
  name i := .of_parts rfl (by simp [Expr.parts])
  param p := .of_parts rfl (by simp [Expr.parts])
  wildcard table := .of_parts rfl (by simp [Expr.parts])
  deeper he := he.mono
  call _ hes := .of_parts rfl hes
  existence hq := .of_parts rfl (List.forall_mem_singleton.2 hq)
  subquery hq := hq.mono
  cast _ he := by
    apply Expr.Within.of_children
    intro x hx
    rw [List.mem_singleton.1 ((Expr.mem_children_of_queries rfl).1 hx)]
    exact .inr ⟨rfl, he⟩
  cases _ hbase harms hotherwise := by
    refine .of_parts rfl ?_
    simp only [Expr.parts, List.forall_mem_append, Option.mem_toList, List.forall_mem_flatMap,
      List.forall_mem_cons, List.not_mem_nil, false_implies, implies_true, and_true]
    exact ⟨⟨hbase, harms⟩, hotherwise⟩
  signed _ _ he := .of_parts rfl (List.forall_mem_singleton.2 he)
  nullTest test hlhs := by
    refine Expr.within_infix ?_ hlhs (by simp)
    rcases test with rfl | rfl <;> rfl
  negated test he := by
    refine Expr.within_infix ?_ he (by simp)
    rw [Expr.wrapped?, if_pos test]
  operation some _ _ hlhs hes := Expr.within_infix (Expr.wrapped?_infix some) hlhs hes
  membership _ hlhs hq := Expr.within_infix (Expr.wrapped?_infix (List.cons_ne_nil _ _)) hlhs
    (List.forall_mem_singleton.2 hq)
  chained flattens hes he := Expr.within_chained flattens hes he
  deeperQuery hq := hq.mono
  select _ parts queries := by
    refine Expr.within_subquery.2 fun x hx => ?_
    rcases Query.mem_roots.1 hx with hx | ⟨q, hq, hx⟩
    · exact parts x hx
    · exact (queries q hq).roots x hx
  compound _ hqs := by
    refine Expr.within_subquery.2 fun x hx => ?_
    rcases Query.mem_roots.1 hx with hx | ⟨q, hq, hx⟩
    · exact absurd hx List.not_mem_nil
    · exact Expr.within_subquery.1 (hqs q hq) x hx
  bounded {q b} hq hb := by
    have above := Expr.within_subquery.1 hq
    refine Expr.within_subquery.2 fun x hx => ?_
    rcases Query.mem_roots.1 hx with hx | hx
    · exact parts_withBounds (fun y hy => above y (Query.mem_roots.2 (.inl hy))) hb x hx
    · rw [queries_withBounds] at hx
      exact above x (Query.mem_roots.2 (.inr hx))

end Grammar

namespace Statement

variable {s : ParseSettings} {delimiter text : List Char} {st : Statement}

/-- Without the steps to what an infix form, a cast or a test for NULL was put around, no path down
from a top-level expression of a statement has more expressions than the levels that were allowed. -/
theorem Parsed.length_path_le (h : st.Parsed s delimiter text) {e : Expr}
    (root : e ∈ st.body.roots) {path : List Expr} (isPath : Expr.IsPath (e :: path)) :
    (e :: path).length ≤ s.maxDepth + Expr.wraps (e :: path) := by
  obtain ⟨-, p, -, -, read, -⟩ := h.exists_piece
  rcases Piece.ofTokens_of_body (Piece.read_eq_ok_iff.1 read).1 with ⟨parts, verbatim⟩ | taken
  · rw [verbatim] at root
    exact absurd root List.not_mem_nil
  · have built := Body.builtOf_ofTokens Grammar.builds_within (.of_forall fun _ => trivial) taken
    have within : e.Within s.maxDepth := by
      rcases Body.mem_roots.1 root with part | ⟨q, hq, root⟩
      · exact built.parts e part
      · exact (built.queries q hq).roots e root
    exact within path isPath

/-- A one from which `n` ones are subtracted, one after the other. -/
def ones : Nat → Expr
  | 0 => .literal (.integer 1)
  | n + 1 => .operation .minus [ones n, .literal (.integer 1)]

/-- `SELECT 1-1-1-1-1`. -/
def ofOnes : Statement where
  sql := "SELECT 1-1-1-1-1"
  body := .select (Select.ofColumns [⟨ones 4, none⟩])
  params := ⟨[], []⟩

theorem parsed_ofOnes : ofOnes.Parsed { maxDepth := 3 } [] ofOnes.sql.toList := by
  let ts : List Token :=
    .onLine (.keyword .SELECT) "" "SELECT" 0 :: .onLine (.integer 1) " " "1" 7 ::
      (List.range 4).flatMap fun i => [.onLine (.punct .minus) "" "-" (8 + 2 * i),
        .onLine (.integer 1) "" "1" (9 + 2 * i)]
  let p : Piece := .onLine ts 16
  have found : ((Script.ofText [] ofOnes.sql.toList).settle .standard).piece
      { maxDepth := 3 } = .ok p := by
    decide +kernel
  have inner : p.innerTokens .standard = ts ++ [p.terminator] := by decide +kernel
  exact parsed_of_piece found nofun inner rfl rfl rfl rfl rfl rfl

/-- With three levels allowed a path of five expressions is read, four of them wrapped. -/
theorem Parsed.length_path_le_ofOnes :
    let path := (List.range 4).reverse.map ones
    ofOnes.Parsed { maxDepth := 3 } [] ofOnes.sql.toList ∧ ones 4 ∈ ofOnes.body.roots ∧
      Expr.IsPath (ones 4 :: path) ∧ (ones 4 :: path).length = 5 ∧
      Expr.wraps (ones 4 :: path) = 4 ∧
      (ones 4 :: path).length ≤ 3 + Expr.wraps (ones 4 :: path) := by
  intro path
  have root : ones 4 ∈ ofOnes.body.roots := by decide +kernel
  have isPath : Expr.IsPath (ones 4 :: path) := by
    unfold Expr.IsPath
    decide +kernel
  exact ⟨parsed_ofOnes, root, isPath, rfl, by decide +kernel,
    parsed_ofOnes.length_path_le root isPath⟩

end Statement

end BoundSql
