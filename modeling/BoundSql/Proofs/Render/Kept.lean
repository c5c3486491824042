import BoundSql.Proofs.Render.NullTest
import BoundSql.Proofs.Tree.Joins
import BoundSql.Proofs.Tree.Params

/-!
# The parameters that tests for NULL leave

When comparisons with NULL become tests, only parameters that are written as NULL go, and none comes
besides those that are marked: `Body.leaves_params`. The joins stay in order.
-/

namespace BoundSql

variable {isNull : ParamRef → Bool}

/-- Of the parameters on the left, those on the right are left, in the same order: only one that is
NULL may be marked, or go. -/
inductive Leaves (isNull : ParamRef → Bool) : List ParamRef → List ParamRef → Prop
  | nil : Leaves isNull [] []
  | keep {ps qs : List ParamRef} (p : ParamRef) (h : Leaves isNull ps qs) :
    Leaves isNull (p :: ps) (p :: qs)
  | mark {ps qs : List ParamRef} {p : ParamRef} (null : isNull p) (h : Leaves isNull ps qs) :
    Leaves isNull (p :: ps) ({ p with nullBound := true } :: qs)
  | drop {ps qs : List ParamRef} {p : ParamRef} (null : isNull p) (h : Leaves isNull ps qs) :
    Leaves isNull (p :: ps) qs

namespace Leaves

variable {ps qs rs ps' qs' : List ParamRef}

theorem refl (ps : List ParamRef) : Leaves isNull ps ps := by
  induction ps with
  | nil => exact .nil
  | cons p ps ih => exact .keep p ih

theorem append (h : Leaves isNull ps qs) (h' : Leaves isNull ps' qs') :
    Leaves isNull (ps ++ ps') (qs ++ qs') := by
  induction h with
  | nil => exact h'
  | keep p _ ih => exact .keep p ih
  | mark null _ ih => exact .mark null ih
  | drop null _ ih => exact .drop null ih

/-- What goes or is marked in two steps goes or is marked in one. -/
theorem trans (h : Leaves isNull ps qs) (h' : Leaves isNull qs rs) : Leaves isNull ps rs := by
  induction h generalizing rs with
  | nil => exact h'
  | keep p _ ih =>
    cases h' with
    | keep _ rest => exact .keep p (ih rest)
    | mark null rest => exact .mark null (ih rest)
    | drop null rest => exact .drop null (ih rest)
  | mark null _ ih =>
    cases h' with
    | keep _ rest => exact .mark null (ih rest)
    | mark _ rest => exact .mark null (ih rest)
    | drop _ rest => exact .drop null (ih rest)
  | drop null _ ih => exact .drop null (ih h')

theorem flatMap_map {α : Type} {f : α → List ParamRef} {g : α → α} {xs : List α}
    (h : ∀ x ∈ xs, Leaves isNull (f x) (f (g x))) :
    Leaves isNull (xs.flatMap f) ((xs.map g).flatMap f) := by
  induction xs with
  | nil => exact .nil
  | cons x xs ih =>
    obtain ⟨head, tail⟩ := List.forall_mem_cons.1 h
    exact head.append (ih tail)

/-- A parameter that is NULL may go. -/
theorem nil_of_isNull {p : ParamRef} (h : isNull p) : Leaves isNull [p] [] := .drop h .nil

/-- What is left and has no mark stood there before. -/
theorem before (h : Leaves isNull ps qs) : ∀ p ∈ qs, p.nullBound = false → p ∈ ps := by
  induction h with
  | nil => exact List.forall_mem_nil _
  | keep p _ ih =>
    refine List.forall_mem_cons.2 ⟨fun _ => List.mem_cons_self, fun q member unmarked => ?_⟩
    exact List.mem_cons_of_mem p (ih q member unmarked)
  | mark _ _ ih =>
    refine List.forall_mem_cons.2 ⟨nofun, fun q member unmarked => ?_⟩
    exact List.mem_cons_of_mem _ (ih q member unmarked)
  | drop _ _ ih => exact fun q member unmarked => List.mem_cons_of_mem _ (ih q member unmarked)

/-- What is not NULL is left. -/
theorem after (h : Leaves isNull ps qs) : ∀ p ∈ ps, isNull p = false → p ∈ qs := by
  have other {p : ParamRef} {prop : Prop} (null : isNull p) (notNull : isNull p = false) : prop := by
    rw [null] at notNull
    cases notNull
  induction h with
  | nil => exact List.forall_mem_nil _
  | keep p _ ih =>
    refine List.forall_mem_cons.2 ⟨fun _ => List.mem_cons_self, fun q member notNull => ?_⟩
    exact List.mem_cons_of_mem p (ih q member notNull)
  | mark null _ ih =>
    refine List.forall_mem_cons.2 ⟨other null, fun q member notNull => ?_⟩
    exact List.mem_cons_of_mem _ (ih q member notNull)
  | drop null _ ih => exact List.forall_mem_cons.2 ⟨other null, ih⟩

/-- What has a mark and stood there without one is NULL. -/
theorem marked (h : Leaves isNull ps qs) (unmarked : ∀ p ∈ ps, p.nullBound = false) :
    ∀ q ∈ qs, q.nullBound → ∃ p ∈ ps, isNull p ∧ p.key = q.key := by
  have later {ps : List ParamRef} {q : ParamRef} (p : ParamRef)
      (found : ∃ p ∈ ps, isNull p ∧ p.key = q.key) : ∃ r ∈ p :: ps, isNull r ∧ r.key = q.key := by
    obtain ⟨r, member, null⟩ := found
    exact ⟨r, List.mem_cons_of_mem p member, null⟩
  induction h with
  | nil => exact List.forall_mem_nil _
  | keep p _ ih =>
    obtain ⟨here, rest⟩ := List.forall_mem_cons.1 unmarked
    refine List.forall_mem_cons.2
      ⟨fun mark => ?_, fun q member mark => later p (ih rest q member mark)⟩
    rw [here] at mark
    cases mark
  | @mark _ _ p null _ ih =>
    obtain ⟨-, rest⟩ := List.forall_mem_cons.1 unmarked
    refine List.forall_mem_cons.2 ⟨fun _ => ⟨p, List.mem_cons_self, null, rfl⟩, ?_⟩
    exact fun q member mark => later p (ih rest q member mark)
  | @drop _ _ p _ _ ih =>
    obtain ⟨-, rest⟩ := List.forall_mem_cons.1 unmarked
    exact fun q member mark => later p (ih rest q member mark)

/-- Which parameters are NULL matters only for those that stood there before. -/
theorem congr {isNull' : ParamRef → Bool} (h : Leaves isNull ps qs)
    (same : ∀ p ∈ ps, isNull p = isNull' p) : Leaves isNull' ps qs := by
  induction h with
  | nil => exact .nil
  | keep p _ ih => exact .keep p (ih (List.forall_mem_cons.1 same).2)
  | mark null _ ih =>
    obtain ⟨here, rest⟩ := List.forall_mem_cons.1 same
    exact .mark (here ▸ null) (ih rest)
  | drop null _ ih =>
    obtain ⟨here, rest⟩ := List.forall_mem_cons.1 same
    exact .drop (here ▸ null) (ih rest)

/-- What is not NULL stays just as it was, if a mark does not change what is NULL. -/
theorem filter_eq (h : Leaves isNull ps qs)
    (marked : ∀ p, isNull { p with nullBound := true } = isNull p) :
    qs.filter (!isNull ·) = ps.filter (!isNull ·) := by
  induction h with
  | nil => rfl
  | keep p _ ih => rw [List.filter_cons, List.filter_cons, ih]
  | mark null _ ih => rw [List.filter_cons, List.filter_cons, marked, null, ih]; rfl
  | drop null _ ih => rw [List.filter_cons, null, ih]; rfl

end Leaves

/-! ## Expressions and queries -/

namespace Expr

/-- The side of a comparison that goes is a parameter that is NULL. -/
theorem leaves_comparedWithNull? {a b x : Expr} (h : comparedWithNull? isNull a b = some x) :
    Leaves isNull (a.params ++ b.params) x.params := by
  have dropped {e : Expr} (null : e.isNullParam isNull) : Leaves isNull e.params [] := by
    cases e with
    | param p => exact Leaves.nil_of_isNull null
    | _ => cases null
  unfold comparedWithNull? at h
  split at h
  · rename_i right
    cases h
    have both := (Leaves.refl a.params).append (dropped (Bool.and_eq_true_iff.1 right).1)
    rwa [List.append_nil] at both
  · split at h
    · rename_i left
      cases h
      exact (dropped (Bool.and_eq_true_iff.1 left).1).append (Leaves.refl b.params)
    · cases h

theorem leaves_testForNull (e : Expr) : Leaves isNull e.params (testForNull isNull e).params := by
  rcases testForNull_cases isNull e with h | ⟨op, a, b, x, compared, rfl, h | h⟩
  · rw [h]
    exact .refl _
  all_goals
    rw [h]
    have left := leaves_comparedWithNull? compared
    simpa using left

theorem leaves_markNull (e : Expr) : Leaves isNull e.params (markNull isNull e).params := by
  cases e with
  | param p =>
    by_cases null : isNull p
    · rw [markNull, if_pos null]
      exact .mark null .nil
    · rw [markNull, if_neg null]
      exact .refl _
  | _ => exact .refl _

theorem ordered_markNull {e : Expr} (h : e.Ordered) : (markNull isNull e).Ordered := by
  cases e with
  | param p =>
    rw [markNull]
    split <;> exact ordered_iff.2 ⟨List.forall_mem_nil _, List.forall_mem_nil _⟩
  | _ => exact h

theorem param?_mapBelow (f : Expr → Expr) (e : Expr) : (e.mapBelow f).param? = e.param? := by
  cases e <;> rfl

end Expr

theorem Query.lead_mapped (f : Expr → Expr) (q : Query) : (q.mapped f).lead = q.lead := by
  rw [mapped_eq_mapParts]
  cases q with
  | select s => simp only [mapParts, lead, Option.toList_map, List.length_map]
  | compound c => rfl

theorem leaves_mapped :
    (∀ e : Expr, Leaves isNull e.params (e.mapped (Expr.testForNull isNull)).params) ∧
      ∀ q : Query, Leaves isNull q.params (q.mapped (Expr.testForNull isNull)).params := by
  refine tree_induction (fun e hes hqs => ?_) fun q hes hqs => ?_
  · rw [Expr.mapped_eq_mapBelow]
    refine Leaves.trans ?_ (Expr.leaves_testForNull _)
    rw [Expr.params_eq, Expr.params_eq (e.mapBelow _), Expr.param?_mapBelow, Expr.parts_mapBelow,
      Expr.queries_mapBelow]
    exact (Leaves.refl _).append ((Leaves.flatMap_map hes).append (Leaves.flatMap_map hqs))
  · rw [Query.params_eq, Query.params_eq (q.mapped _), Query.lead_mapped, Query.parts_mapped,
      Query.queries_mapped, ← List.map_take, ← List.map_drop]
    exact ((Leaves.flatMap_map fun x hx => hes x (List.mem_of_mem_take hx)).append
      (Leaves.flatMap_map hqs)).append
        (Leaves.flatMap_map fun x hx => hes x (List.mem_of_mem_drop hx))

/-! ## Statements -/

namespace Fragment

@[simp] theorem refs_cons (part : Fragment) (parts : List Fragment) :
    (part :: parts).filterMap ref? = part.ref?.toList ++ parts.filterMap ref? := by
  cases part <;> rfl

theorem refs_pushText (parts : List Fragment) (t : String) :
    (pushText parts t).filterMap ref? = parts.filterMap ref? := by
  fun_induction pushText parts t with
  | case1 => rfl
  | case2 => rfl
  | case3 => rfl
  | case4 _ part rest _ ih => rw [refs_cons, refs_cons, ih]

theorem refs_endWithTest? {parts parts' : List Fragment} (h : endWithTest? parts = some parts') :
    parts'.filterMap ref? = parts.filterMap ref? := by
  fun_induction endWithTest? parts generalizing parts' with
  | case1 => cases h
  | case2 t =>
    obtain ⟨u, -, rfl⟩ := Option.map_eq_some_iff.1 h
    rfl
  | case3 => cases h
  | case4 part parts _ _ ih =>
    obtain ⟨rest, tested, rfl⟩ := Option.map_eq_some_iff.1 h
    rw [refs_cons, refs_cons, ih tested]

theorem leaves_pushTested (parts : List Fragment) (part : Fragment) :
    Leaves isNull (parts.filterMap ref? ++ part.ref?.toList)
      ((pushTested isNull parts part).filterMap ref?) := by
  cases part with
  | text t =>
    rw [pushTested, refs_pushText, ref?, Option.toList_none, List.append_nil]
    exact .refl _
  | param p =>
    rw [pushTested]
    split
    · rename_i parts' tested
      obtain ⟨null, tested⟩ := Option.ite_none_right_eq_some.1 tested
      have both := (Leaves.refl (parts'.filterMap ref?)).append (Leaves.nil_of_isNull null)
      rw [List.append_nil] at both
      rwa [← refs_endWithTest? tested]
    · rw [List.filterMap_append]
      exact .refl _

theorem leaves_foldl (parts more : List Fragment) :
    Leaves isNull (parts.filterMap ref? ++ more.filterMap ref?)
      ((more.foldl (pushTested isNull) parts).filterMap ref?) := by
  induction more generalizing parts with
  | nil => simpa using Leaves.refl _
  | cons part more ih =>
    have first : Leaves isNull _ _ := (leaves_pushTested parts part).append
      (Leaves.refl (more.filterMap ref?))
    rw [refs_cons, ← List.append_assoc]
    exact first.trans (ih (pushTested isNull parts part))

end Fragment

namespace Body

theorem leaves_markNulls (b : Body) : Leaves isNull b.params (b.markNulls isNull).params := by
  cases b with
  | update u =>
    have marked : (markNulls isNull (update u)).parts =
        (u.assignments.map (·.value)).map (Expr.markNull isNull) ++ u.condition.toList := by
      rw [markNulls, parts, List.map_map, List.map_map]
      rfl
    rw [params_eq, params_eq (markNulls isNull (update u)), marked, parts, List.flatMap_append,
      List.flatMap_append]
    exact (((Leaves.flatMap_map fun e _ => Expr.leaves_markNull e).append (.refl _)).append
      (.refl _)).append (.refl _)
  | verbatim parts => exact Fragment.leaves_foldl [] parts
  | _ => exact .refl _

theorem leaves_map (b : Body) :
    Leaves isNull b.params (b.map (Expr.testForNull isNull)).params := by
  have fragments : (b.map (Expr.testForNull isNull)).fragments = b.fragments := by cases b <;> rfl
  rw [params_eq, params_eq (b.map _), parts_map, queries_map, fragments]
  exact ((Leaves.flatMap_map fun e _ => leaves_mapped.1 e).append
    (Leaves.flatMap_map fun q _ => leaves_mapped.2 q)).append (.refl _)

/-- Only parameters that are NULL go when comparisons with NULL become tests. -/
theorem leaves_params (b : Body) :
    Leaves isNull b.params (b.testForNulls isNull).params :=
  b.leaves_markNulls.trans (leaves_map _)

/-- The tests for NULL leave the joins in order. -/
theorem Ordered.testForNulls {b : Body} (h : b.Ordered) : (b.testForNulls isNull).Ordered := by
  obtain ⟨mappedExpr, mappedQuery⟩ := everywhere_mapped (f := Expr.testForNull isNull)
    (P := fun _ => True) (Q := Query.JoinsOrdered)
    (fun e he => Expr.ordered_iff.2 ⟨fun x hx => he.parts x (Expr.parts_testForNull hx),
      fun q hq => he.queries q (Expr.queries_testForNull hq)⟩)
    (fun _ _ => trivial) fun _ hq => hq.mapped
  have marked : (b.markNulls isNull).Ordered := by
    cases b with
    | update u =>
      refine ⟨fun e he => ?_, h.2⟩
      rw [markNulls, parts, List.map_map] at he
      rcases List.mem_append.1 he with value | condition
      · obtain ⟨a, ha, rfl⟩ := List.mem_map.1 value
        have ordered := h.1 a.value (List.mem_append_left _ (List.mem_map.2 ⟨a, ha, rfl⟩))
        exact Expr.ordered_markNull ordered
      · exact h.1 e (List.mem_append_right _ condition)
    | verbatim => exact h
    | _ => exact h
  constructor
  · rw [Body.testForNulls, parts_map]
    exact List.forall_mem_map.2 fun e he => mappedExpr e (marked.1 e he)
  · rw [Body.testForNulls, queries_map]
    exact List.forall_mem_map.2 fun q hq => mappedQuery q (marked.2 q hq)

end Body

end BoundSql
