import BoundSql.Proofs.RoundTrip.Branches
import BoundSql.Proofs.RoundTrip.Whole
import BoundSql.Render.Statement

/-!
# Queries as statements

The text of a tree of set operators is read as one statement, and as `Query.merged` says. The
standard dialect writes all such trees; SQLite, which has no parentheses around branches, writes
those whose branches need none.
-/

namespace BoundSql

open Text Token Parse Grammar Phrase Render RenderContext

section Statement

variable {r : RenderContext} {d : Dialect} {op : SetOp} {q : Query} {limit : Nat}

/-- A text whose words are read as a query is a statement. -/
theorem Body.ofTokens_ofText {text : List Char} {u : Word} {us : List Word}
    (hwords : d.words text = u :: us) (hu : u.BeginsQuery)
    (h : Takes (query limit limit) (u :: us) q Word.eof) :
    Body.ofTokens limit (Lexer.ofText d.lexicon text).tokens = .ok (.ofQuery q) := by
  have hbody : Reads (body (nested limit)) (u :: us ++ [Word.eof]) (.ofQuery q) [Word.eof] := by
    refine reads_kind.bind ?_
    rcases hu with hu | hu <;> rw [hu] <;> exact (h []).map
  have hstatement : Reads (statement limit) (u :: us ++ [Word.eof]) (.ofQuery q) [Word.eof] := by
    refine hbody.bind ((reads_accept_ne (by simp [Word.eof])).bind ((reads_isAt _).bind ?_))
    exact (reads_pure _).bind (reads_pure _)
  have hstart := Cursor.words_ofText d text
  rw [hwords] at hstart
  obtain ⟨c, hread, -⟩ := hstatement _ hstart
  unfold Body.ofTokens
  have hrun : (statement limit).run (Cursor.ofTokens (Lexer.ofText d.lexicon text).tokens) =
    .ok (.ofQuery q, c) := hread
  rw [hrun]
  rfl

/-- The texts of integers spell words. -/
theorem Query.Numeric.lexable (hq : q.Numeric) :
    q.Everywhere (Expr.Lexable r) (Query.Lexable r) := by
  refine Everywhere.mono (fun e he => ?_) (fun q hq => ?_) hq
  · obtain ⟨n, rfl⟩ := he
    exact whole_integer r.dialect n
  · intro o ho c hc
    have hnone : o.collation = none := by
      cases q with
      | select s => exact hq.2.2.2.2.2.2.2.2 o ho
      | compound c => exact hq.2 o ho
    rw [hnone] at hc
    cases hc

/-- Writing the query succeeds and records no name. -/
def Query.Writable (r : RenderContext) (q : Query) : Prop :=
  ∀ used, ∃ p, Gives (q.render r) used p used

theorem Expr.IsInteger.writable {e : Expr} (he : e.IsInteger) : e.Writable r := by
  obtain ⟨n, rfl⟩ := he
  exact fun used => ⟨_, gives_pure.2 ⟨rfl, rfl⟩⟩

theorem Column.writable_renderAll {cs : List Column} (hcs : ∀ c ∈ cs, c.expr.Writable r)
    (used : List String) : ∃ ps, Gives (Column.renderAll r cs) used ps used := by
  rw [renderAll_eq_mapM]
  refine exists_gives_mapM (fun c hc used => ?_) used
  obtain ⟨p, hp⟩ := hcs c hc used
  exact ⟨_, gives_bind_pure.2 ⟨p, hp, rfl⟩⟩

theorem OrderItem.writable_renderAll {os : List OrderItem} (hos : ∀ o ∈ os, o.expr.Writable r)
    (used : List String) : ∃ ps, Gives (OrderItem.renderAll r os) used ps used := by
  rw [renderAll_eq_mapM]
  refine exists_gives_mapM (fun o ho used => ?_) used
  obtain ⟨p, hp⟩ := hos o ho used
  exact ⟨_, gives_bind_pure.2 ⟨p, hp, rfl⟩⟩

/-- Where branches may stand in parentheses, all branches can be written. -/
theorem Query.writable_renderBranches {qs : List Query} {n : Nat}
    (hr : r.dialect.parenthesizedBranches) (hqs : ∀ q ∈ qs, q.Writable r) (used : List String) :
    ∃ ps, Gives (Query.renderBranches r op n qs) used ps used := by
  induction qs generalizing n with
  | nil => exact ⟨[], gives_pure.2 ⟨rfl, rfl⟩⟩
  | cons q qs ih =>
    obtain ⟨p, hp⟩ := hqs q List.mem_cons_self used
    have hbranch : ∃ p', r.branch op n q p = .ok p' := by
      unfold branch
      split
      · exact ⟨p, rfl⟩
      · exact ⟨_, rfl⟩
    obtain ⟨p', hp'⟩ := hbranch
    obtain ⟨ps, hps⟩ := @ih (n + 1) fun x hx => hqs x (List.mem_cons_of_mem _ hx)
    exact ⟨_, gives_bind.2 ⟨p, _, hp, gives_bind.2 ⟨p', _, gives_lift.2 ⟨hp', rfl⟩,
      gives_bind.2 ⟨ps, _, hps, gives_pure.2 ⟨rfl, rfl⟩⟩⟩⟩⟩

/-- The standard dialect writes all trees of set operators over integers. -/
theorem Query.Numeric.writable (hr : r.dialect = .standard) (hq : q.Numeric) : q.Writable r := by
  have h : (∀ _ : Expr, True) ∧ ∀ q : Query, q.Numeric → q.Writable r := by
    refine tree_induction (fun _ _ _ => trivial) fun q _ ih hq used => ?_
    have hparts e (he : e ∈ q.parts) : e.Writable r := (hq.parts e he).here.writable
    have hnode := hq.here
    cases q with
    | select s =>
      obtain ⟨distinct, distinctOn, columns, source, condition, groupBy, having, orderBy, limit,
        offset⟩ := s
      obtain ⟨rfl, rfl, -, -, rfl, rfl, rfl, rfl, -⟩ := hnode
      simp only [Query.parts, List.mem_append, or_imp, forall_and] at hparts
      obtain ⟨⟨⟨⟨⟨⟨⟨⟨-, hcolumns⟩, -⟩, -⟩, -⟩, -⟩, horders⟩, hmost⟩, hskipped⟩ := hparts
      obtain ⟨cols, hcols⟩ := Column.writable_renderAll
        (fun c hc => hcolumns _ (List.mem_map_of_mem hc)) used
      obtain ⟨order, horder⟩ := OrderItem.writable_renderAll
        (fun o ho => horders _ (List.mem_map_of_mem ho)) used
      obtain ⟨lim, hlim⟩ := Expr.writable_renderOption hmost used
      obtain ⟨off, hoff⟩ := Expr.writable_renderOption hskipped used
      simp only [Query.render, Select.render, gives_bind, gives_pure, gives_lift]
      exact ⟨_, (), used, ⟨rfl, rfl⟩, none, used, gives_pure.2 ⟨rfl, rfl⟩, cols, used, hcols, none, used,
        gives_pure.2 ⟨rfl, rfl⟩, none, used, gives_pure.2 ⟨rfl, rfl⟩, [], used,
        gives_pure.2 ⟨rfl, rfl⟩, none, used, gives_pure.2 ⟨rfl, rfl⟩, order, used, horder, lim, used,
        hlim, off, used, hoff, rfl, rfl⟩
    | compound c =>
      obtain ⟨op, branches, orderBy, limit, offset⟩ := c
      simp only [Query.parts, List.mem_append, or_imp, forall_and] at hparts
      obtain ⟨⟨horders, hmost⟩, hskipped⟩ := hparts
      have hparens : r.dialect.parenthesizedBranches := by
        rw [hr]
        rfl
      have hcheck : r.checkSetOp op = .ok () := by
        unfold checkSetOp
        rw [hr, if_neg]
        simp [Dialect.setOpAll]
      obtain ⟨bs, hbs⟩ : ∃ bs, Gives (Query.renderBranches r op 0 branches) used bs used :=
        Query.writable_renderBranches hparens (fun q' hq' => ih q' hq' (hq.queries q' hq')) used
      obtain ⟨order, horder⟩ := OrderItem.writable_renderAll
        (fun o ho => horders _ (List.mem_map_of_mem ho)) used
      obtain ⟨lim, hlim⟩ := Expr.writable_renderOption hmost used
      obtain ⟨off, hoff⟩ := Expr.writable_renderOption hskipped used
      simp only [Query.render, Compound.render, gives_bind, gives_pure, gives_lift]
      exact ⟨_, (), used, ⟨hcheck, rfl⟩, bs, used, hbs, order, used, horder, lim, used, hlim, off, used,
        hoff, rfl, rfl⟩
  exact h.2 q hq

/-- What writing a statement answers. -/
theorem Statement.write_eq_ok {s : Statement} {values : Bindings} {settings : RenderSettings}
    {text : String} : (s.write values settings d).1 = .ok text ↔
      ∃ p used, Gives (RenderContext.body { dialect := d, settings, params := s.params, values } s.body)
        [] p used ∧ text = String.ofList (p.write settings.pretty) := by
  unfold Statement.write Gives Render.start
  dsimp only
  generalize (RenderContext.body _ s.body).run.run [] = out
  obtain ⟨out, used⟩ := out
  cases out with
  | error e =>
    refine ⟨fun h => ?_, fun ⟨_, _, h, _⟩ => ?_⟩ <;> cases h
  | ok p =>
    refine ⟨fun h => ?_, fun ⟨_, _, h, htext⟩ => ?_⟩
    · cases h
      exact ⟨p, used, rfl, rfl⟩
    · cases h
      rw [htext]
      rfl

end Statement

end BoundSql
