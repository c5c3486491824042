import BoundSql.Proofs.Grammar.FollowedBody
import BoundSql.Proofs.Render.Statement

/-!
# Statements that are rendered

What the words of a statement are worth, the words of its rendering are worth, if the worth of its
tree is known: `Statement.Parsed.marks_le_render`.
-/

namespace BoundSql

open Parse Render Token

/-! ## Statements without a parameter that is NULL -/

section Tests

variable {isNull : ParamRef → Bool}

/-- Where no parameter is NULL no comparison becomes a test. -/
theorem Expr.testForNull_eq_self {e : Expr} (h : ∀ p ∈ e.params, isNull p = false) :
    e.testForNull isNull = e := by
  have kept {x : Expr} (hx : ∀ p ∈ x.params, isNull p = false) : x.isNullParam isNull = false := by
    cases x with
    | param p => exact hx p (by simp [params_eq, param?, parts, queries])
    | _ => rfl
  rcases testForNull_cases isNull e with same | ⟨op, a, b, x, compared, rfl, -⟩
  · exact same
  · simp only [params_operation, List.flatMap_cons, List.flatMap_nil, List.append_nil,
      List.forall_mem_append] at h
    simp [comparedWithNull?, kept h.1, kept h.2] at compared

theorem mapped_testForNull_eq_self :
    (∀ e : Expr, (∀ p ∈ e.params, isNull p = false) → e.mapped (Expr.testForNull isNull) = e) ∧
      ∀ q : Query, (∀ p ∈ q.params, isNull p = false) → q.mapped (Expr.testForNull isNull) = q := by
  have everywhere : (∀ e : Expr, (∀ p ∈ e.params, isNull p = false) →
        e.Everywhere (fun x => x.testForNull isNull = x) fun _ => True) ∧
      ∀ q : Query, (∀ p ∈ q.params, isNull p = false) →
        q.Everywhere (fun x => x.testForNull isNull = x) fun _ => True := by
    refine tree_induction (fun e hes hqs h => ?_) fun q hes hqs h => ?_
    · have here := Expr.testForNull_eq_self h
      simp only [Expr.params_eq e, List.forall_mem_append, List.forall_mem_flatMap] at h
      exact ⟨here, fun x hx => hes x hx (h.2.1 x hx), fun q hq => hqs q hq (h.2.2 q hq)⟩
    · simp only [q.params_perm.mem_iff, List.forall_mem_append, List.forall_mem_flatMap] at h
      exact ⟨trivial, fun x hx => hes x hx (h.1 x hx), fun q' hq' => hqs q' hq' (h.2 q' hq')⟩
  exact ⟨fun e h => mapped_eq_self.1 e (everywhere.1 e h),
    fun q h => mapped_eq_self.2 q (everywhere.2 q h)⟩

/-- A statement that is taken apart stays as it is, if no parameter is NULL. -/
theorem Body.testForNulls_eq_self {b : Body} (taken : ∀ parts, b ≠ .verbatim parts)
    (h : ∀ p ∈ b.params, isNull p = false) : b.testForNulls isNull = b := by
  simp only [b.params_perm.mem_iff, List.forall_mem_append, List.forall_mem_flatMap] at h
  obtain ⟨⟨hparts, hqueries⟩, -⟩ := h
  have unmarked : b.markNulls isNull = b := by
    cases b with
    | update u =>
      have values : u.assignments.map (fun a => { a with value := a.value.markNull isNull }) =
          u.assignments := by
        refine (List.map_congr_left fun a ha => ?_).trans (List.map_id _)
        have params := hparts a.value (List.mem_append_left _ (List.mem_map.2 ⟨a, ha, rfl⟩))
        cases value : a.value with
        | param p =>
          have notNull := params p (by simp [value, Expr.params_eq, Expr.param?, Expr.parts,
            Expr.queries])
          rw [Expr.markNull, notNull]
          exact congrArg (Assignment.mk a.column) value.symm
        | _ => exact congrArg (Assignment.mk a.column) value.symm
      rw [markNulls, values]
    | verbatim parts => exact absurd rfl (taken parts)
    | _ => rfl
  rw [testForNulls, unmarked]
  exact map_eq_self (fun x hx => mapped_testForNull_eq_self.1 x (hparts x hx))
    fun q hq => mapped_testForNull_eq_self.2 q (hqueries q hq)

end Tests

/-! ## The words about conflicts -/

namespace Grammar

open Body

theorem quietConflict_none : QuietConflict none := nofun

theorem yields_conflictClause : Yields QuietConflict conflictClause := by
  refine yields_afterWord .OR (yields_after fun k => ?_)
  split <;> first
    | exact yields_after fun _ => yields_pure (by decide +kernel)
    | exact yields_fail _

theorem yields_insert (r : Nested) : Yields (fun i => QuietConflict i.onConflict) (insert r) := by
  have tail (onConflict : Option String) (quiet : QuietConflict onConflict) :
      Yields (fun i => QuietConflict i.onConflict) (do
        word .INTO
        let table ← qualifiedName "table name"
        let columns ← insertColumns
        return { table, columns, source := ← insertSource r, onConflict : Insert }) :=
    yields_after fun _ => yields_after fun _ => yields_after fun _ => yields_after fun _ =>
      yields_pure quiet
  refine yields_after fun replace => ?_
  cases replace
  · exact yields_after fun _ => yields_conflictClause.bind tail
  · exact tail _ (by intro action h; cases h; decide +kernel)

theorem yields_update (r : Nested) : Yields (fun u => QuietConflict u.onConflict) (update r) :=
  yields_after fun _ => yields_conflictClause.bind fun _ quiet => yields_after fun _ =>
    yields_after fun _ => yields_after fun _ => yields_after fun _ => yields_pure quiet

theorem yields_body (r : Nested) : Yields (fun b => QuietConflict b.onConflict) (body r) := by
  have query (q : Query) : QuietConflict (Body.ofQuery q).onConflict := by
    cases q <;> exact quietConflict_none
  refine yields_after fun k => ?_
  split
  · exact yields_mapped query
  · exact yields_mapped query
  · exact (yields_insert r).map fun _ quiet => quiet
  · exact (yields_insert r).map fun _ quiet => quiet
  · exact (yields_update r).map fun _ quiet => quiet
  · exact yields_mapped fun _ => quietConflict_none
  all_goals first
    | exact yields_after fun _ => yields_mapped fun _ => quietConflict_none
    | exact yields_fail _

end Grammar

/-! ## The text of a parsed statement -/

section Parsed

variable {s : ParseSettings} {delimiter text : List Char} {st : Statement}

namespace Statement

theorem Parsed.quietConflict (h : st.Parsed s delimiter text) :
    Body.QuietConflict st.body.onConflict := by
  obtain ⟨p, read, -⟩ := h.exists_words
  rcases Piece.ofTokens_of_body (Piece.read_eq_ok_iff.1 read).1 with ⟨parts, verbatim⟩ | taken
  · rw [verbatim]
    exact Grammar.quietConflict_none
  · exact Body.of_ofTokens (Grammar.yields_body _) taken

variable {N : Type} [AddMonoid N] [Preorder N] [AddLeftMono N] [AddRightMono N]

/-- The text of a statement is worth no more than its tree. -/
theorem Parsed.marks_le_worth (h : st.Parsed s delimiter text) (m : Marking N) :
    ↑(m.marks (s.dialect.allWords st.sql)) ≤ st.body.worth m.toWeights := by
  obtain ⟨p, read, words⟩ := h.exists_words
  have same : s.dialect.allWords st.sql = (p.innerTokens s.dialect).map toWord := words
  rw [same]
  rcases Piece.ofTokens_of_body (Piece.read_eq_ok_iff.1 read).1 with ⟨parts, verbatim⟩ | taken
  · rw [verbatim]
    exact le_top
  · exact Body.marks_le_worth m (Lexer.closed_tokens _) taken

/-- If no parameter is NULL, and the texts that writing a statement takes over spell words, then what
its text is worth its rendering is worth, if the worth of its tree is known. -/
theorem Parsed.marks_le_render (h : st.Parsed s delimiter text) {values : Bindings}
    {settings : RenderSettings} {d : Dialect}
    (m : Marking N) (v : Writing N (st.context values settings d)) (same : m.toWeights = v.toWeights)
    (notNull : ∀ p ∈ st.body.params, p.holdsNull st.params values = false)
    (lexable : st.body.Lexable (st.context values settings d)) {n : N}
    (known : st.body.worth v.toWeights = ↑n) {sql : String}
    (written : st.render values settings d = .ok sql) :
    m.marks (s.dialect.allWords st.sql) ≤ n ∧ n + v.marks [.eof] ≤ v.marks (d.allWords sql) := by
  have taken (ps) : st.body ≠ .verbatim ps := by
    intro verbatim
    rw [verbatim] at known
    cases known
  have unchanged : st.testForNulls values = st := by
    rw [Statement.testForNulls, Body.testForNulls_eq_self taken notNull]
  rw [render, unchanged] at written
  have source := h.marks_le_worth m
  rw [same, known] at source
  exact ⟨WithTop.coe_le_coe.1 source,
    worth_le_marks v lexable h.quietConflict h.holds.2 known written⟩

end Statement

end Parsed

end BoundSql
