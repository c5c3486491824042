import BoundSql.Proofs.Tree.Body
import BoundSql.Render.NullTest

/-!
# Comparisons with NULL are tested once

After the comparisons with NULL have become tests, none is left: a second pass finds nothing to
change, in the tree of a statement as in one that is kept as text.
-/

namespace BoundSql

open Text

variable {isNull : ParamRef → Bool}

namespace Expr

/-- What is left of a comparison with NULL is one of its sides. -/
theorem comparedWithNull?_mem {a b e : Expr} (h : comparedWithNull? isNull a b = some e) :
    e ∈ [a, b] := by
  unfold comparedWithNull? at h
  split at h
  · cases h
    exact List.mem_cons_self
  · split at h
    · cases h
      exact List.mem_cons_of_mem _ List.mem_cons_self
    · cases h

/-- An expression is left as it is, or is a comparison that becomes a test of one of its sides. -/
theorem testForNull_cases (isNull : ParamRef → Bool) (e : Expr) :
    testForNull isNull e = e ∨ ∃ op a b x, comparedWithNull? isNull a b = some x ∧
      e = operation op [a, b] ∧ (testForNull isNull e = operation .isNull [x] ∨
        testForNull isNull e = operation .isNotNull [x]) := by
  unfold testForNull
  split
  · rename_i a b
    split
    · rename_i x hx
      exact .inr ⟨.eq, a, b, x, hx, rfl, .inl rfl⟩
    · exact .inl rfl
  · rename_i a b
    split
    · rename_i x hx
      exact .inr ⟨.diff, a, b, x, hx, rfl, .inr rfl⟩
    · exact .inl rfl
  · exact .inl rfl

/-- A test for NULL is no comparison, so nothing is left to do. -/
theorem testForNull_testForNull (e : Expr) :
    testForNull isNull (testForNull isNull e) = testForNull isNull e := by
  rcases testForNull_cases isNull e with h | ⟨op, a, b, x, -, -, h | h⟩
  · rw [h, h]
  · rw [h]
    rfl
  · rw [h]
    rfl

theorem parts_testForNull {e x : Expr} (hx : x ∈ (testForNull isNull e).parts) : x ∈ e.parts := by
  rcases testForNull_cases isNull e with h | ⟨op, a, b, y, hy, rfl, h | h⟩
  · rwa [h] at hx
  all_goals
    rw [h] at hx
    exact List.mem_singleton.1 hx ▸ comparedWithNull?_mem hy

theorem queries_testForNull {e : Expr} {q : Query} (hq : q ∈ (testForNull isNull e).queries) :
    q ∈ e.queries := by
  rcases testForNull_cases isNull e with h | ⟨op, a, b, y, -, rfl, h | h⟩
  · rwa [h] at hq
  all_goals
    rw [h] at hq
    exact absurd hq List.not_mem_nil

theorem param?_mapped_testForNull (e : Expr) :
    (mapped (testForNull isNull) e).param? = e.param? := by
  have test (x : Expr) : (testForNull isNull x).param? = x.param? := by
    rcases testForNull_cases isNull x with h | ⟨op, a, b, y, -, rfl, h | h⟩
    · rw [h]
    all_goals
      rw [h]
      rfl
  rw [mapped_eq_mapBelow, test]
  cases e <;> rfl

theorem markNull_of_param?_eq_none {e : Expr} (h : e.param? = none) : markNull isNull e = e := by
  cases e with
  | param p => cases h
  | _ => rfl

theorem markNull_markNull (e : Expr) :
    markNull isNull (markNull isNull e) = markNull isNull e := by
  cases e with
  | param p =>
    by_cases h : isNull p
    · simp [markNull, h]
    · simp [markNull, h]
  | _ => rfl

/-- Only a parameter is ever marked, and a parameter is no comparison. -/
theorem markNull_mapped {e : Expr} (h : markNull isNull e = e) :
    markNull isNull (mapped (testForNull isNull) e) = mapped (testForNull isNull) e := by
  cases hp : e.param? with
  | none =>
    apply markNull_of_param?_eq_none
    rw [param?_mapped_testForNull, hp]
  | some p =>
    cases e with
    | param q => exact h
    | _ => cases hp

end Expr

namespace Fragment

theorem pushText_of_isEmpty {t : String} (ht : t.isEmpty) (parts : List Fragment) :
    pushText parts t = parts := by
  rw [pushText.eq_def, if_pos ht]

theorem pushText_nil {t : String} (ht : t.isEmpty = false) : pushText [] t = [.text t] := by
  simp [pushText, ht]

/-- Text joins the text at the end. -/
theorem pushText_concat_text {t : String} (ht : t.isEmpty = false) (parts : List Fragment)
    (last : String) : pushText (parts ++ [.text last]) t = parts ++ [.text (last ++ t)] := by
  induction parts with
  | nil => simp [pushText, ht]
  | cons part parts ih =>
    have step : pushText (part :: (parts ++ [.text last])) t =
        part :: pushText (parts ++ [.text last]) t := by
      cases parts <;> simp [pushText, ht]
    rw [List.cons_append, step, ih, List.cons_append]

theorem pushText_concat_param {t : String} (ht : t.isEmpty = false) (parts : List Fragment)
    (p : ParamRef) : pushText (parts ++ [.param p]) t = parts ++ [.param p] ++ [.text t] := by
  induction parts with
  | nil => simp [pushText, ht]
  | cons part parts ih =>
    have step : pushText (part :: (parts ++ [.param p])) t =
        part :: pushText (parts ++ [.param p]) t := by
      cases parts <;> simp [pushText, ht]
    rw [List.cons_append, step, ih]
    rfl

/-- Whether text becomes a fragment of its own depends on what it stands behind. -/
theorem pushText_eq_append {parts : List Fragment} {s t : String} (ht : t.isEmpty = false)
    (h : pushText parts s = parts ++ [.text s]) : pushText parts t = parts ++ [.text t] := by
  by_cases hs : s.isEmpty
  · rw [pushText_of_isEmpty hs] at h
    simp at h
  have hs : s.isEmpty = false := by simpa using hs
  rcases List.eq_nil_or_concat parts with rfl | ⟨front, last, rfl⟩
  · exact pushText_nil ht
  · cases last with
    | text u =>
      rw [List.concat_eq_append, pushText_concat_text hs] at h
      simpa using congrArg List.length h
    | param p => rw [List.concat_eq_append, pushText_concat_param ht]

theorem endWithTest?_concat_text (parts : List Fragment) (t : String) :
    endWithTest? (parts ++ [.text t]) = (testForNull? t).map fun t => parts ++ [.text t] := by
  induction parts with
  | nil => rfl
  | cons part parts ih =>
    have step : endWithTest? (part :: (parts ++ [.text t])) =
        (endWithTest? (parts ++ [.text t])).map (part :: ·) := by
      cases parts <;> simp [endWithTest?]
    rw [List.cons_append, step, ih, Option.map_map]
    rfl

theorem endWithTest?_concat_param (parts : List Fragment) (p : ParamRef) :
    endWithTest? (parts ++ [.param p]) = none := by
  induction parts with
  | nil => rfl
  | cons part parts ih =>
    have step : endWithTest? (part :: (parts ++ [.param p])) =
        (endWithTest? (parts ++ [.param p])).map (part :: ·) := by
      cases parts <;> simp [endWithTest?]
    rw [List.cons_append, step, ih]
    rfl

/-- The test that a comparison becomes is not empty. -/
theorem isEmpty_of_testForNull? {t u : String} (h : testForNull? t = some u) :
    u.isEmpty = false := by
  obtain ⟨⟨kept, test⟩, hsplit, rfl⟩ := Option.map_eq_some_iff.1 h
  have htest : test.toList ≠ [] := by
    unfold splitComparison? at hsplit
    split at hsplit <;> cases hsplit <;> decide
  simpa using fun _ _ => htest

/-- Kept text in which no comparison with NULL is left: every fragment stands as it does when the
fragments are put together once more. -/
inductive Tested (isNull : ParamRef → Bool) : List Fragment → Prop
  | nil : Tested isNull []
  | concat {parts : List Fragment} {part : Fragment} (h : Tested isNull parts)
    (hpart : pushTested isNull parts part = parts ++ [part]) : Tested isNull (parts ++ [part])

theorem Tested.last {parts : List Fragment} {part : Fragment}
    (h : Tested isNull (parts ++ [part])) :
    Tested isNull parts ∧ pushTested isNull parts part = parts ++ [part] := by
  generalize hall : parts ++ [part] = all at h
  cases h with
  | nil => simp at hall
  | concat h hpart =>
    obtain ⟨rfl, hlast⟩ := List.append_inj' hall rfl
    cases hlast
    exact ⟨h, hpart⟩

/-- Other text may take the place of the text at the end. -/
theorem Tested.text {parts : List Fragment} {s t : String} (h : Tested isNull (parts ++ [.text s]))
    (ht : t.isEmpty = false) : Tested isNull (parts ++ [.text t]) :=
  .concat h.last.1 (pushText_eq_append ht h.last.2)

/-- One more fragment leaves no comparison with NULL. -/
theorem Tested.push {parts : List Fragment} (h : Tested isNull parts) (part : Fragment) :
    Tested isNull (pushTested isNull parts part) := by
  cases part with
  | text t =>
    change Tested isNull (pushText parts t)
    by_cases ht : t.isEmpty
    · rwa [pushText_of_isEmpty ht]
    have ht : t.isEmpty = false := by simpa using ht
    rcases List.eq_nil_or_concat parts with rfl | ⟨front, last, rfl⟩
    · rw [pushText_nil ht]
      exact Tested.nil.concat (pushText_nil ht)
    · rw [List.concat_eq_append] at h ⊢
      cases last with
      | text u =>
        rw [pushText_concat_text ht]
        exact h.text (by simpa using fun _ => ht)
      | param p =>
        rw [pushText_concat_param ht]
        exact .concat h (pushText_concat_param ht front p)
  | param p =>
    cases hend : if isNull p then endWithTest? parts else none with
    | none =>
      have hpush : pushTested isNull parts (.param p) = parts ++ [.param p] := by
        simp only [pushTested, hend]
      rw [hpush]
      exact .concat h hpush
    | some ended =>
      simp only [pushTested, hend]
      split at hend
      · rcases List.eq_nil_or_concat parts with rfl | ⟨front, last, rfl⟩
        · cases hend
        · rw [List.concat_eq_append] at h hend
          cases last with
          | text t =>
            rw [endWithTest?_concat_text] at hend
            obtain ⟨u, hu, rfl⟩ := Option.map_eq_some_iff.1 hend
            exact h.text (isEmpty_of_testForNull? hu)
          | param p =>
            rw [endWithTest?_concat_param] at hend
            cases hend
      · cases hend

theorem Tested.foldl {parts : List Fragment} (h : Tested isNull parts) (more : List Fragment) :
    Tested isNull (more.foldl (pushTested isNull) parts) := by
  induction more generalizing parts with
  | nil => exact h
  | cons part more ih => exact ih (h.push part)

theorem Tested.foldl_eq {parts : List Fragment} (h : Tested isNull parts) :
    parts.foldl (pushTested isNull) [] = parts := by
  induction h with
  | nil => rfl
  | concat _ hpart ih => rw [List.foldl_append, ih, List.foldl_cons, hpart, List.foldl_nil]

end Fragment

namespace Body

/-- Nothing is left to mark and no comparison in kept text is left. -/
theorem markNulls_testForNulls (b : Body) :
    (b.testForNulls isNull).markNulls isNull = b.testForNulls isNull := by
  cases b with
  | update u =>
    rw [testForNulls, markNulls, map_update, markNulls, List.map_map, List.map_map]
    refine congrArg (fun as => update { u with
      assignments := as, condition := u.condition.map _ }) (List.map_congr_left fun a _ => ?_)
    exact congrArg (fun v => { a with value := v })
      (Expr.markNull_mapped (Expr.markNull_markNull a.value))
  | verbatim parts =>
    exact congrArg verbatim (Fragment.Tested.nil.foldl parts).foldl_eq
  | _ => rfl

/-- No comparison with NULL is left in the expressions of a statement. -/
theorem map_testForNulls (b : Body) :
    (b.testForNulls isNull).map (Expr.testForNull isNull) = b.testForNulls isNull := by
  have tested := everywhere_mapped_fixed (f := Expr.testForNull isNull) Expr.testForNull_testForNull
    (fun _ _ => Expr.parts_testForNull) fun _ _ => Expr.queries_testForNull
  apply map_eq_self
  · intro x hx
    rw [testForNulls, parts_map] at hx
    obtain ⟨y, -, rfl⟩ := List.mem_map.1 hx
    exact mapped_eq_self.1 _ (tested.1 y)
  · intro q hq
    rw [testForNulls, queries_map] at hq
    obtain ⟨y, -, rfl⟩ := List.mem_map.1 hq
    exact mapped_eq_self.2 _ (tested.2 y)

theorem testForNulls_testForNulls (b : Body) :
    (b.testForNulls isNull).testForNulls isNull = b.testForNulls isNull := by
  rw [testForNulls, markNulls_testForNulls, map_testForNulls]

end Body

/-- Turning the comparisons with NULL of a statement into tests a second time changes nothing. -/
theorem Statement.testForNulls_idem (s : Statement) (values : Bindings) :
    (s.testForNulls values).testForNulls values = s.testForNulls values := by
  exact congrArg (fun b => { s with body := b }) s.body.testForNulls_testForNulls

end BoundSql
