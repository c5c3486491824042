import BoundSql.Proofs.RoundTrip.Statement
import BoundSql.Proofs.Render.Transaction
import BoundSql.Proofs.Render.Usable

/-!
# Written statements as words

What is written of a query, an INSERT, an UPDATE or a DELETE is tidy and tells what it is worth, so
that its text is worth at least as much: `Statement.worth_le_marks`.
-/

namespace BoundSql

open Phrase Render RenderContext Token

namespace Body

/-- The word of an INSERT or UPDATE about conflicts. -/
def onConflict : Body → Option String
  | insert i => i.onConflict
  | update u => u.onConflict
  | select _ | compound _ | delete _ | transaction _ | verbatim _ => none

/-- What is to be done on a conflict, if it is said, is said by a quiet word. -/
def QuietConflict (onConflict : Option String) : Prop :=
  ∀ action ∈ onConflict, Text.isQuiet action.toUpper = true

/-- The texts that writing the statement takes over as they stand spell words. -/
structure Lexable (r : RenderContext) (b : Body) : Prop where
  parts : ∀ e ∈ b.parts, e.Everywhere (Expr.Lexable r) (Query.Lexable r)
  queries : ∀ q ∈ b.queries, q.Everywhere (Expr.Lexable r) (Query.Lexable r)

/-- The texts that writing the statement takes over as they stand spell words, as far as `f` shows
those of parameters. -/
structure LexableAs {α : Type} (f : Word → α) (r : RenderContext) (b : Body) : Prop where
  parts : ∀ e ∈ b.parts, e.Everywhere (Expr.LexableAs f r) (Query.Lexable r)
  queries : ∀ q ∈ b.queries, q.Everywhere (Expr.LexableAs f r) (Query.Lexable r)

theorem Lexable.as {α : Type} {f : Word → α} {r : RenderContext} {b : Body} (h : b.Lexable r) :
    b.LexableAs f r :=
  ⟨fun e he => (h.parts e he).mono (fun _ h => h.as) fun _ h => h,
    fun q hq => (h.queries q hq).mono (fun _ h => h.as) fun _ h => h⟩

end Body

namespace RenderContext

variable {r : RenderContext}

theorem isQuiet_insertWords {onConflict : Option String}
    (h : Body.QuietConflict onConflict) :
    ∀ w ∈ insertWords r.dialect onConflict, Text.isQuiet w = true := by
  unfold insertWords
  split
  · decide
  · rename_i action
    split
    · decide
    · split
      · decide
      · have quiet := h action rfl
        have fixed : ∀ w ∈ ["INSERT", "OR", "INTO"], Text.isQuiet w = true := by decide
        simp only [List.forall_mem_cons, List.not_mem_nil, false_imp_iff, forall_const, and_true]
          at fixed ⊢
        exact ⟨fixed.1, fixed.2.1, quiet, fixed.2.2⟩

theorem isQuiet_updateWords {onConflict : Option String}
    (h : Body.QuietConflict onConflict) {ws : List String}
    (given : r.updateWords onConflict = .ok ws) : ∀ w ∈ ws, Text.isQuiet w = true := by
  unfold updateWords at given
  split at given
  · cases given
    decide
  · rename_i action
    split at given
    · split at given
      · cases given
        decide
      · cases given
    · cases given
      have quiet := h action rfl
      have fixed : ∀ w ∈ ["UPDATE", "OR"], Text.isQuiet w = true := by decide
      simp only [List.forall_mem_cons, List.not_mem_nil, false_imp_iff, forall_const, and_true]
        at fixed ⊢
      exact ⟨fixed.1, fixed.2, quiet⟩

/-! ## Statements are tidy -/

section Tidy

variable {α : Type} {f : Word → α} {used used' : List String} {p : Phrase}

theorem tidy_qualified (i : Identifier) : Tidy f r.dialect (r.qualified i) :=
  (r.nameTidy_dotted i.parts).tidy

theorem tidy_condition {o : Option Expr} (h : ∀ e ∈ o.toList, e.WrittenTidy f r)
    (written : Gives (r.condition o) used p used') : TidyApart f r.dialect p := by
  cases o with
  | none =>
    obtain ⟨rfl, -⟩ := gives_pure.1 written
    exact .nil
  | some e =>
    simp only [condition, gives_bind, gives_pure] at written
    obtain ⟨q, _, hq, rfl, rfl⟩ := written
    exact tidyApart_clause (by decide) (h e (by simp) _ _ _ hq)

theorem tidy_insertSource {s : InsertSource} (hparts : ∀ e ∈ s.parts, e.WrittenTidy f r)
    (hqueries : ∀ q ∈ s.queries, q.WrittenTidy f r)
    (written : Gives (r.insertSource s) used p used') : p.Tidy f r.dialect := by
  cases s with
  | values rows =>
    simp only [insertSource, gives_bind, gives_pure] at written
    obtain ⟨ps, _, hps, rfl, rfl⟩ := written
    have all : ∀ p ∈ ps, p.Tidy f r.dialect := by
      refine forall_of_gives_mapM (fun row hrow used p used' hp => ?_) hps
      simp only [gives_bind, gives_pure] at hp
      obtain ⟨qs, _, hqs, rfl, rfl⟩ := hp
      have items (e) (he : e ∈ row) := hparts e (List.mem_flatten.2 ⟨row, hrow, he⟩)
      exact (Tidy.commas (Expr.tidy_renderAll items hqs)).parens
    exact Tidy.text_cons (.of_isPlainName (by decide)) (Tidy.commas all).blank (apart_blank _)
  | query q => exact hqueries q (by simp [InsertSource.queries]) _ _ _ written
  | defaultValues =>
    obtain ⟨rfl, -⟩ := gives_pure.1 written
    exact .plain_words (by decide)

theorem tidy_insert {i : Insert} (hparts : ∀ e ∈ i.source.parts, e.WrittenTidy f r)
    (hqueries : ∀ q ∈ i.source.queries, q.WrittenTidy f r)
    (hconflict : Body.QuietConflict i.onConflict)
    (written : Gives (r.insert i) used p used') : p.Tidy f r.dialect := by
  simp only [insert, gives_bind, gives_pure] at written
  obtain ⟨q, _, hq, rfl, rfl⟩ := written
  have front : Tidy f r.dialect (words (insertWords r.dialect i.onConflict)) :=
    .plain_words fun w hw => Text.isPlainName_of_isQuiet (isQuiet_insertWords hconflict w hw)
  have columns : TidyApart f r.dialect (if i.columns.isEmpty then [] else
      .blank :: parens (commas (i.columns.map fun c => [r.name c]))) := by
    split
    · exact .nil
    · refine ⟨(Tidy.parens (.commas fun p hp => ?_)).blank, apart_blank _⟩
      obtain ⟨c, -, rfl⟩ := List.mem_map.1 hp
      exact tidy_name c
  have source := (tidy_insertSource hparts hqueries hq).clause
  exact ((front.append (tidy_qualified i.table).blank (apart_blank _)).append columns.1
    columns.2).append source (apart_clause _)

theorem tidy_update {u : Update} (hparts : ∀ e ∈ (Body.update u).parts, e.WrittenTidy f r)
    (hconflict : Body.QuietConflict u.onConflict)
    (written : Gives (r.update u) used p used') : p.Tidy f r.dialect := by
  simp only [update, gives_bind, gives_pure, gives_lift] at written
  obtain ⟨ws, _, ⟨hws, rfl⟩, ps, _, hps, q, _, hq, rfl, rfl⟩ := written
  simp only [Body.parts, List.forall_mem_append] at hparts
  have front : Tidy f r.dialect (words ws) :=
    .plain_words fun w hw => Text.isPlainName_of_isQuiet (isQuiet_updateWords hconflict hws w hw)
  have assignments : ∀ p ∈ ps, p.Tidy f r.dialect := by
    refine forall_of_gives_mapM (fun a ha used p used' hp => ?_) hps
    simp only [assignment, gives_bind, gives_pure] at hp
    obtain ⟨q, _, hq, rfl, rfl⟩ := hp
    have value := hparts.1 a.value (List.mem_map.2 ⟨a, ha, rfl⟩) _ _ _ hq
    have eq : Operator.eq.ReadIn r.dialect := .of_plain rfl (by decide) _
    exact (tidy_name a.column).append (Tidy.text_cons (spells_operator eq).whole value.blank (apart_blank _)).blank
      (apart_blank _)
  have condition := tidy_condition hparts.2 hq
  have set := tidyApart_clause (by decide : ∀ w ∈ ["SET"], IsPlainName w.toList)
    (Tidy.commas assignments)
  exact ((front.append (tidy_qualified u.table).blank (apart_blank _)).append set.1
    set.2).append condition.1 condition.2

theorem tidy_delete {d : Delete} (hparts : ∀ e ∈ (Body.delete d).parts, e.WrittenTidy f r)
    (written : Gives (r.delete d) used p used') : p.Tidy f r.dialect := by
  simp only [delete, gives_bind, gives_pure] at written
  obtain ⟨q, _, hq, rfl, rfl⟩ := written
  have front : Tidy f r.dialect (words ["DELETE", "FROM"]) := .plain_words (by decide)
  have condition := tidy_condition hparts hq
  exact (front.append (tidy_qualified d.table).blank (apart_blank _)).append condition.1 condition.2

/-- What is written of a statement that is taken apart is tidy. -/
theorem tidy_body {b : Body} (lexable : b.LexableAs f r)
    (conflict : Body.QuietConflict b.onConflict) (taken : ∀ parts, b ≠ .verbatim parts)
    (written : Gives (r.body b) used p used') : p.Tidy f r.dialect := by
  obtain ⟨tidyExpr, tidyQuery⟩ := tidy_render_as f r
  have parts (e) (he : e ∈ b.parts) := tidyExpr e (lexable.parts e he)
  have queries (q) (hq : q ∈ b.queries) := tidyQuery q (lexable.queries q hq)
  cases b with
  | select s => exact queries _ List.mem_cons_self _ _ _ written
  | compound c => exact queries _ List.mem_cons_self _ _ _ written
  | insert i => exact tidy_insert parts queries conflict written
  | update u => exact tidy_update parts conflict written
  | delete d => exact tidy_delete parts written
  | transaction t =>
    simp only [RenderContext.body, gives_lift] at written
    exact tidy_transaction written.1
  | verbatim ps => exact absurd rfl (taken ps)

end Tidy

/-! ## Statements tell what they are worth -/

variable {N : Type} [AddMonoid N] [Preorder N] [AddLeftMono N] (v : Writing N r)
  {used used' : List String} {p : Phrase}

theorem tells_condition {o : Option Expr} (h : ∀ e ∈ o.toList, e.Told v)
    (written : Gives (r.condition o) used p used') :
    Tells v.marks r.dialect (Expr.worthOption v.toWeights o) p := by
  cases o with
  | none =>
    obtain ⟨rfl, -⟩ := gives_pure.1 written
    rw [Expr.worthOption]
    exact .nil
  | some e =>
    simp only [condition, gives_bind, gives_pure] at written
    obtain ⟨q, _, hq, rfl, rfl⟩ := written
    rw [Expr.worthOption]
    exact v.tells_clause (by decide) (h e (by simp) _ _ _ hq)

theorem tells_insertSource {s : InsertSource} (hparts : ∀ e ∈ s.parts, e.Told v)
    (hqueries : ∀ q ∈ s.queries, q.Told v) (written : Gives (r.insertSource s) used p used') :
    Tells v.marks r.dialect (s.worth v.toWeights) p := by
  cases s with
  | values rows =>
    simp only [insertSource, gives_bind, gives_pure] at written
    obtain ⟨ps, _, hps, rfl, rfl⟩ := written
    have all : v.TellsAll (Expr.worthAll v.toWeights) rows ps := by
      refine forall₂_of_gives_mapM (fun row hrow used p used' hp => ?_) hps
      simp only [gives_bind, gives_pure] at hp
      obtain ⟨qs, _, hqs, rfl, rfl⟩ := hp
      have items (e) (he : e ∈ row) := hparts e (List.mem_flatten.2 ⟨row, hrow, he⟩)
      exact v.tells_parens (Expr.tells_commas v (Expr.told_renderAll v items hqs))
    exact v.tells_keyword (s := "VALUES") (by decide) (v.tells_commas all)
  | query q => exact hqueries q (by simp [InsertSource.queries]) _ _ _ written
  | defaultValues =>
    obtain ⟨rfl, -⟩ := gives_pure.1 written
    exact .words fun w hw => v.tells_quiet (by revert w; decide)

theorem tells_insert {i : Insert} (hparts : ∀ e ∈ i.source.parts, e.Told v)
    (hqueries : ∀ q ∈ i.source.queries, q.Told v)
    (hconflict : Body.QuietConflict i.onConflict)
    (written : Gives (r.insert i) used p used') :
    Tells v.marks r.dialect ((Body.insert i).worth v.toWeights) p := by
  simp only [insert, gives_bind, gives_pure] at written
  obtain ⟨q, _, hq, rfl, rfl⟩ := written
  have front : Tells v.marks r.dialect 0 (words (insertWords r.dialect i.onConflict)) :=
    .words fun w hw => v.tells_quiet (isQuiet_insertWords hconflict w hw)
  have columns : Tells v.marks r.dialect (v.columns i.columns) (if i.columns.isEmpty then [] else
      .blank :: parens (commas (i.columns.map fun c => [r.name c]))) := by
    split
    · rename_i empty
      rw [List.isEmpty_iff.1 empty]
      exact .nil
    · exact (v.tells_parens (v.tells_nameList i.columns)).blank
  have table := front.behind (v.tells_names i.table.parts).blank
  have source := tells_insertSource v hparts hqueries hq
  rw [Body.worth]
  exact (table.append columns).append source.clause

theorem tells_update {u : Update} (hparts : ∀ e ∈ (Body.update u).parts, e.Told v)
    (hconflict : Body.QuietConflict u.onConflict)
    (written : Gives (r.update u) used p used') :
    Tells v.marks r.dialect ((Body.update u).worth v.toWeights) p := by
  simp only [update, gives_bind, gives_pure, gives_lift] at written
  obtain ⟨ws, _, ⟨hws, rfl⟩, ps, _, hps, q, _, hq, rfl, rfl⟩ := written
  simp only [Body.parts, List.forall_mem_append] at hparts
  have front : Tells v.marks r.dialect 0 (words ws) :=
    .words fun w hw => v.tells_quiet (isQuiet_updateWords hconflict hws w hw)
  have assignments : v.TellsAll (fun a => v.assigned a.column + a.value.worth v.toWeights)
      u.assignments ps := by
    refine forall₂_of_gives_mapM (fun a ha used p used' hp => ?_) hps
    simp only [assignment, gives_bind, gives_pure] at hp
    obtain ⟨q, _, hq, rfl, rfl⟩ := hp
    have value := hparts.1 a.value (List.mem_map.2 ⟨a, ha, rfl⟩) _ _ _ hq
    have eq : Operator.eq.ReadIn r.dialect := .of_plain rfl (by decide) _
    exact v.tells_infix eq (v.tells_assigned a.column) value
  have set := v.tells_clause (by decide : ∀ w ∈ ["SET"], Text.isQuiet w = true)
    (v.tells_commas assignments)
  have table := front.behind (v.tells_names u.table.parts).blank
  rw [Body.worth]
  exact (table.append set).append (tells_condition v hparts.2 hq)

theorem tells_delete {d : Delete} (hparts : ∀ e ∈ (Body.delete d).parts, e.Told v)
    (written : Gives (r.delete d) used p used') :
    Tells v.marks r.dialect ((Body.delete d).worth v.toWeights) p := by
  simp only [delete, gives_bind, gives_pure] at written
  obtain ⟨q, _, hq, rfl, rfl⟩ := written
  have front : Tells v.marks r.dialect 0 (words ["DELETE", "FROM"]) :=
    .words fun w hw => v.tells_quiet (by revert w; decide)
  rw [Body.worth]
  exact (front.behind (v.tells_names d.table.parts).blank).append (tells_condition v hparts hq)

/-- What is written of a statement whose worth is known is tidy and tells it. -/
theorem told_body [AddRightMono N] {b : Body} (lexable : b.Lexable r)
    (conflict : Body.QuietConflict b.onConflict) (ordered : b.Ordered)
    (known : b.worth v.toWeights ≠ ⊤) (written : Gives (r.body b) used p used') :
    p.Tidy id r.dialect ∧ Tells v.marks r.dialect (b.worth v.toWeights) p := by
  have taken (ps) : b ≠ .verbatim ps := by
    rintro rfl
    exact known rfl
  refine ⟨tidy_body lexable.as conflict taken written, ?_⟩
  obtain ⟨toldExpr, toldQuery⟩ := told_render v
  obtain ⟨parts, queries⟩ := lexable
  have toldParts (e) (he : e ∈ b.parts) : e.Told v :=
    toldExpr e ((parts e he).mono (fun _ h => h) fun _ _ => trivial) (ordered.1 e he)
  have toldQueries (q) (hq : q ∈ b.queries) : q.Told v :=
    toldQuery q ((queries q hq).mono (fun _ h => h) fun _ _ => trivial) (ordered.2 q hq)
  cases b with
  | select s =>
    have told := toldQueries _ List.mem_cons_self _ _ _ written
    rwa [Query.worth] at told
  | compound c =>
    have told := toldQueries _ List.mem_cons_self _ _ _ written
    rwa [Query.worth] at told
  | insert i => exact tells_insert v toldParts toldQueries conflict written
  | update u => exact tells_update v toldParts conflict written
  | delete d => exact tells_delete v toldParts written
  | transaction t =>
    simp only [RenderContext.body, gives_lift] at written
    exact tells_transaction v known written.1
  | verbatim ps => exact absurd rfl (taken ps)

end RenderContext

/-- The words of a text, up to the end of the input. -/
def Dialect.allWords (d : Dialect) (text : String) : List Word :=
  (Lexer.ofText d.lexicon text.toList).tokens.map Token.toWord

theorem Dialect.allWords_ofList (d : Dialect) (cs : List Char) :
    d.allWords (String.ofList cs) = d.words cs ++ [Word.eof] := by
  rw [allWords, Lexer.toWord_tokens_ofText, String.toList_ofList]
  rfl

/-- The text of a statement whose worth is known is worth at least as much. -/
theorem Statement.worth_le_marks {N : Type} [AddMonoid N] [Preorder N] [AddLeftMono N]
    [AddRightMono N] {st : Statement} {values : Bindings} {settings : RenderSettings} {d : Dialect}
    (v : Writing N (st.context values settings d))
    (lexable : st.body.Lexable (st.context values settings d))
    (conflict : Body.QuietConflict st.body.onConflict) (ordered : st.body.Ordered) {n : N}
    (known : st.body.worth v.toWeights = ↑n) {text : String}
    (written : (st.write values settings d).1 = .ok text) :
    n + v.marks [.eof] ≤ v.marks (d.allWords text) := by
  obtain ⟨p, used, given, rfl⟩ := write_eq_ok.1 written
  obtain ⟨tidy, tells⟩ := RenderContext.told_body v lexable conflict ordered (by simp [known]) given
  have words : d.words (p.write settings.pretty) = wordsIn d p :=
    (tidy.spells settings.pretty).words_eq
  rw [Dialect.allWords_ofList, words]
  exact tells n known _

end BoundSql
