import BoundSql.Proofs.Render.Gives
import BoundSql.Proofs.Render.Name
import BoundSql.Proofs.Tree.Induction

/-!
# Written expressions and queries as words

Whatever is written of an expression or a query is tidy, as long as the texts that it takes over as
they stand are: `tidy_render` says so for all trees at once.
-/

namespace BoundSql

open Phrase Render RenderContext Token

/-- The texts that writing the expression takes over as they stand spell words. -/
def Expr.Lexable (r : RenderContext) : Expr → Prop
  | literal l => Whole r.dialect (l.sql r.dialect)
  | param p => ∀ used text, r.paramText p used = .ok text → Whole r.dialect text
  | call function _ _ => Whole r.dialect function
  | operation op _ => op.ReadIn r.dialect
  | cast _ type => Whole r.dialect type.sql
  | name _ | subquery _ | cases _ _ _ | wildcard _ => True

/-- The texts that writing the expression takes over as they stand spell words, as far as `f` shows
those of parameters. -/
def Expr.LexableAs {α : Type} (f : Word → α) (r : RenderContext) : Expr → Prop
  | param p => ∀ used text, r.paramText p used = .ok text → Tidy f r.dialect [.text text]
  | e => e.Lexable r

theorem Expr.Lexable.as {α : Type} {f : Word → α} {r : RenderContext} {e : Expr}
    (h : e.Lexable r) : e.LexableAs f r := by
  cases e with
  | param p => exact fun used text given => Tidy.text (h used text given)
  | _ => exact h

/-- The sort keys of a query, which come last but for the bounds. -/
def Query.orderBy : Query → List OrderItem
  | select s => s.orderBy
  | compound c => c.orderBy

/-- The texts that writing the query takes over as they stand spell words. -/
def Query.Lexable (r : RenderContext) (q : Query) : Prop :=
  ∀ o ∈ q.orderBy, ∀ c ∈ o.collation, Whole r.dialect c

section Parts

variable {α : Type} {f : Word → α} {r : RenderContext} {used used' : List String} {p : Phrase}
  {ps : List Phrase}

/-- Whatever is written of the expression is tidy. -/
def Expr.WrittenTidy (f : Word → α) (r : RenderContext) (e : Expr) : Prop :=
  ∀ used p used', Gives (e.render r) used p used' → p.Tidy f r.dialect

/-- Whatever is written of the query is tidy. -/
def Query.WrittenTidy (f : Word → α) (r : RenderContext) (q : Query) : Prop :=
  ∀ used p used', Gives (q.render r) used p used' → p.Tidy f r.dialect

theorem Expr.tidy_renderAll {es : List Expr} (hes : ∀ e ∈ es, e.WrittenTidy f r)
    (h : Gives (Expr.renderAll r es) used ps used') : ∀ p ∈ ps, p.Tidy f r.dialect := by
  rw [renderAll_eq_mapM] at h
  exact forall_of_gives_mapM hes h

theorem Expr.tidy_asOperand {op : Operator} {right : Bool} {e : Expr} (h : p.Tidy f r.dialect) :
    (e.asOperand op right p).Tidy f r.dialect := by
  unfold asOperand
  split
  · exact h.parens
  · exact h

theorem Expr.tidy_renderOperands {op : Operator} {es : List Expr}
    (hes : ∀ e ∈ es, e.WrittenTidy f r) (h : Gives (Expr.renderOperands r op es) used ps used') :
    ∀ p ∈ ps, p.Tidy f r.dialect := by
  rw [renderOperands_eq_mapM] at h
  refine forall_of_gives_mapM (fun e he used p used' given => ?_) h
  obtain ⟨q, hq, rfl⟩ := gives_bind_pure.1 given
  exact tidy_asOperand (hes e he _ _ _ hq)

theorem Expr.tidy_renderOption {o : Option Expr} {q : Option Phrase}
    (ho : ∀ e ∈ o.toList, e.WrittenTidy f r) (h : Gives (Expr.renderOption r o) used q used') :
    ∀ p ∈ q, p.Tidy f r.dialect := by
  cases o with
  | none =>
    obtain ⟨rfl, -⟩ := gives_pure.1 h
    simp
  | some e =>
    simp only [Expr.renderOption, gives_bind, gives_pure] at h
    obtain ⟨p, _, hp, rfl, rfl⟩ := h
    have := ho e (by simp) _ _ _ hp
    simpa using this

/-- The tokens behind the operator are apart from the operand in front of it. -/
theorem tidy_operator {op : Operator} {q : Phrase} (hop : op.ReadIn r.dialect)
    (hp : p.Tidy f r.dialect) (hq : q.Tidy f r.dialect) :
    (p ++ ([.blank, op.mark, .blank] ++ q)).Tidy f r.dialect := by
  have hmark : Whole r.dialect op.sql := (spells_operator hop).whole
  exact hp.append (Tidy.text_cons hmark hq.blank (apart_blank _)).blank (apart_blank _)

theorem tidy_negated (h : p.Tidy f r.dialect) : (negated p).Tidy f r.dialect := by
  unfold negated
  split
  · exact h.parens.minus rfl
  · rename_i hminus
    exact h.minus (by simpa using hminus)

theorem Operator.eq_bitNot_of_shape {op : Operator} (h : op.shape = .prefixSign) : op = .bitNot := by
  cases op <;> first | rfl | cases h

theorem tidy_operation {op : Operator} {operands : List Expr} (hop : op.ReadIn r.dialect)
    (hes : ∀ e ∈ operands, e.WrittenTidy f r)
    (hqs : ∀ q, .subquery q ∈ operands → q.WrittenTidy f r)
    (h : Expr.OperationGives r op used used' operands p) : p.Tidy f r.dialect := by
  have hmark : Whole r.dialect op.sql := (spells_operator hop).whole
  have hand : Whole r.dialect "AND" := .of_isPlainName (by decide)
  cases h with
  | prefixWord _ he =>
    have he := hes _ (by simp) _ _ _ he
    exact Tidy.text_cons hmark (Expr.tidy_asOperand he).blank (apart_blank _)
  | prefixSign hshape he =>
    have he := hes _ (by simp) _ _ _ he
    obtain rfl : op = .bitNot := Operator.eq_bitNot_of_shape hshape
    exact (Expr.tidy_asOperand he).bitNot (hop.2 rfl)
  | negation _ he =>
    have he := hes _ (by simp) _ _ _ he
    exact tidy_negated (Expr.tidy_asOperand he)
  | postfixWords _ he =>
    have he := hes _ (by simp) _ _ _ he
    exact (Expr.tidy_asOperand he).append (Tidy.text hmark).blank (apart_blank _)
  | membershipQuery _ he hq =>
    have he := hes _ (by simp) _ _ _ he
    have hq := hqs _ (by simp) _ _ _ hq
    rw [List.append_assoc]
    exact tidy_operator hop (Expr.tidy_asOperand he) hq.parens
  | membershipList _ _ he hps =>
    have he := hes _ (by simp) _ _ _ he
    have hps := Expr.tidy_renderAll (fun x hx => hes x (List.mem_cons_of_mem _ hx)) hps
    rw [List.append_assoc]
    exact tidy_operator hop (Expr.tidy_asOperand he) (Tidy.commas hps).parens
  | range _ he hlow hhigh =>
    have he := hes _ (by simp) _ _ _ he
    have hlow := hes _ (by simp) _ _ _ hlow
    have hhigh := hes _ (by simp) _ _ _ hhigh
    simp only [List.append_assoc]
    refine tidy_operator hop (Expr.tidy_asOperand he) ?_
    refine (Expr.tidy_asOperand hlow).append ?_ (apart_blank _)
    exact (Tidy.text_cons hand (Expr.tidy_asOperand hhigh).blank (apart_blank _)).blank
  | chain _ _ he hsecond hothers =>
    have he := hes _ (by simp) _ _ _ he
    have hsecond := hes _ (by simp) _ _ _ hsecond
    have hothers := Expr.tidy_renderOperands (fun x hx => hes x (by simp [hx])) hothers
    refine Tidy.sepBy (fun hq => ?_) (fun _ => apart_blank _) ?_
    · exact (Tidy.text_cons hmark hq.blank (apart_blank _)).blank
    · intro q hq
      rcases List.mem_cons.1 hq with rfl | hq
      · exact Expr.tidy_asOperand he
      · rcases List.mem_cons.1 hq with rfl | hq
        · exact Expr.tidy_asOperand hsecond
        · exact hothers q hq

theorem tidy_keyword (k : Keyword) (hp : p.Tidy f r.dialect) :
    Tidy f r.dialect (.text k.spelling :: .blank :: p) :=
  Tidy.text_cons (.of_isPlainName k.isPlainName_spelling) hp.blank (apart_blank _)

theorem Expr.tidy_renderArms {arms : List (Expr × Expr)}
    (harms : ∀ arm ∈ arms, arm.1.WrittenTidy f r ∧ arm.2.WrittenTidy f r)
    (h : Gives (Expr.renderArms r arms) used p used') : p.Tidy f r.dialect ∧ Apart p := by
  induction arms generalizing used p with
  | nil =>
    obtain ⟨rfl, -⟩ := gives_pure.1 h
    exact ⟨.nil, apart_nil⟩
  | cons arm arms ih =>
    obtain ⟨w, t⟩ := arm
    simp only [Expr.renderArms, gives_bind, gives_pure] at h
    obtain ⟨p₁, _, hw, p₂, _, ht, q, _, hq, rfl, rfl⟩ := h
    obtain ⟨hw', ht'⟩ := harms _ List.mem_cons_self
    obtain ⟨hq, hapart⟩ := ih (fun x hx => harms x (List.mem_cons_of_mem _ hx)) hq
    refine ⟨?_, apart_blank _⟩
    simp only [List.append_assoc]
    refine (tidy_keyword .WHEN ((hw' _ _ _ hw).append ?_ (apart_blank _))).blank
    exact (tidy_keyword .THEN ((ht' _ _ _ ht).append hq hapart)).blank

/-- What is written between the parentheses of a call. -/
theorem tidy_arguments {distinct : Bool} (hp : p.Tidy f r.dialect) :
    Tidy f r.dialect ((if distinct then [.text "DISTINCT", .blank] else []) ++ p) := by
  cases distinct
  · exact hp
  · exact tidy_keyword .DISTINCT hp

theorem Expr.tidy_call {function : String} {distinct : Bool} {args : List Expr}
    (hfunction : Whole r.dialect function) (hes : ∀ e ∈ args, e.WrittenTidy f r)
    (hqs : ∀ q, .subquery q ∈ args → q.WrittenTidy f r) : (call function distinct args).WrittenTidy f r := by
  intro used p used' h
  rw [Expr.render.eq_def] at h
  dsimp only at h
  split at h
  · rename_i q
    split at h
    · simp only [gives_bind, gives_pure] at h
      obtain ⟨p, _, hq, rfl, rfl⟩ := h
      exact tidy_keyword .EXISTS (hqs q (by simp) _ _ _ hq).parens
    · simp only [gives_bind, gives_pure] at h
      obtain ⟨p, _, hq, rfl, rfl⟩ := h
      refine Tidy.text_cons hfunction (Tidy.parens ?_) (apart_parens _)
      exact tidy_arguments (hqs q (by simp) _ _ _ hq).parens
  · simp only [gives_bind, gives_pure] at h
    obtain ⟨ps, _, hps, rfl, rfl⟩ := h
    refine Tidy.text_cons hfunction (Tidy.parens ?_) (apart_parens _)
    exact tidy_arguments (Tidy.commas (tidy_renderAll hes hps))

theorem tidy_after {k : Keyword} {o : Option Phrase} (ho : ∀ p ∈ o, p.Tidy f r.dialect)
    {q : Phrase} (hq : q.Tidy f r.dialect) (hapart : Apart q) :
    Tidy f r.dialect (after [.blank, .text k.spelling, .blank] o ++ q) ∧
      Apart (after [.blank, .text k.spelling, .blank] o ++ q) := by
  cases o with
  | none => exact ⟨hq, hapart⟩
  | some p => exact ⟨(tidy_keyword k ((ho p rfl).append hq hapart)).blank, apart_blank _⟩

theorem Expr.tidy_cases {base otherwise : Option Expr} {arms : List (Expr × Expr)}
    (hbase : ∀ e ∈ base.toList, e.WrittenTidy f r)
    (harms : ∀ arm ∈ arms, arm.1.WrittenTidy f r ∧ arm.2.WrittenTidy f r)
    (hotherwise : ∀ e ∈ otherwise.toList, e.WrittenTidy f r) :
    (cases base arms otherwise).WrittenTidy f r := by
  intro used p used' h
  simp only [Expr.render, gives_bind, gives_pure] at h
  obtain ⟨b, _, hb, q, _, hq, o, _, ho, rfl, rfl⟩ := h
  obtain ⟨hq, hapart⟩ := tidy_renderArms harms hq
  have hend : Tidy f r.dialect [.blank, .text "END"] :=
    (Tidy.text (.of_isPlainName (by decide))).blank
  obtain ⟨htail, hapart'⟩ := tidy_after (k := .ELSE) (tidy_renderOption hotherwise ho) hend
    (apart_blank _)
  have hcase : Whole r.dialect "CASE" := .of_isPlainName (by decide)
  have harms := hq.append htail hapart'
  have hgap := hapart.append hapart'
  simp only [List.cons_append, List.append_assoc]
  cases b with
  | none => exact Tidy.text_cons hcase harms hgap
  | some p =>
    have hp := tidy_renderOption hbase hb p rfl
    exact Tidy.text_cons hcase (hp.append harms hgap).blank (apart_blank _)

theorem Expr.tidy_cast {e : Expr} {type : DataType} (he : e.WrittenTidy f r)
    (htype : Whole r.dialect type.sql) : (cast e type).WrittenTidy f r := by
  intro used p used' h
  simp only [Expr.render, gives_bind, gives_pure] at h
  obtain ⟨p, _, hp, rfl, rfl⟩ := h
  refine Tidy.text_cons (.of_isPlainName (by decide)) (Tidy.parens ?_) (apart_parens _)
  exact (he _ _ _ hp).append (tidy_keyword .AS (Tidy.text htype)).blank (apart_blank _)

theorem tidy_name (text : String) : Tidy f r.dialect [r.name text] := (r.nameTidy_name text).tidy

theorem tidy_labelled (hp : p.Tidy f r.dialect) (label : Option String) :
    (r.labelled p label).Tidy f r.dialect := by
  cases label with
  | none => exact hp
  | some label => exact hp.append (tidy_keyword .AS (tidy_name label)).blank (apart_blank _)

theorem tidy_labelledTarget (hp : p.Tidy f r.dialect) (label : Option String) :
    (r.labelledTarget p label).Tidy f r.dialect := by
  cases label with
  | none => exact hp
  | some label =>
    rw [labelledTarget]
    split
    · exact hp.append (tidy_name label).blank (apart_blank _)
    · exact tidy_labelled hp (some label)

/-- A phrase that is tidy and stands apart can stand behind any tidy phrase. -/
def Phrase.TidyApart (f : Word → α) (d : Dialect) (p : Phrase) : Prop := p.Tidy f d ∧ Apart p

theorem Phrase.TidyApart.nil {d : Dialect} : TidyApart f d [] := ⟨.nil, apart_nil⟩

theorem Phrase.TidyApart.append {d : Dialect} {p q : Phrase} (hp : TidyApart f d p)
    (hq : TidyApart f d q) : TidyApart f d (p ++ q) :=
  ⟨hp.1.append hq.1 hq.2, hp.2.append hq.2⟩

theorem tidyApart_clause {ws : List String} (hws : ∀ w ∈ ws, IsPlainName w.toList)
    (hp : p.Tidy f r.dialect) : TidyApart f r.dialect (clause ws p) :=
  ⟨Tidy.clause_words (fun w hw => .of_isPlainName (hws w hw)) hp, apart_clause _⟩

theorem tidyApart_clauseOf {ws : List String} (hws : ∀ w ∈ ws, IsPlainName w.toList)
    {o : Option Phrase} (ho : ∀ p ∈ o, p.Tidy f r.dialect) :
    TidyApart f r.dialect (clauseOf ws o) := by
  cases o with
  | none => exact .nil
  | some p => exact tidyApart_clause hws (ho p rfl)

theorem tidyApart_listClause {ws : List String} (hws : ∀ w ∈ ws, IsPlainName w.toList)
    (hps : ∀ p ∈ ps, p.Tidy f r.dialect) : TidyApart f r.dialect (listClause ws ps) := by
  unfold listClause
  split
  · exact .nil
  · exact tidyApart_clause hws (Tidy.commas hps)

/-- The words that OFFSET needs in front of it in some dialects. -/
theorem whole_unlimited (d : Dialect) : ∀ w ∈ unlimited d, Whole d w := by
  have hlimit : Whole d "LIMIT" := .of_isPlainName (by decide)
  have hall : Whole d "18446744073709551615" :=
    (IsDecimal.whole ⟨by decide, List.all_eq_true.1 (by decide)⟩).spells.whole
  have hone : Spells d ['1'] [⟨number ['1'] true, ['1']⟩] :=
    (IsDecimal.whole ⟨by decide, List.all_eq_true.1 (by decide)⟩).spells
  have hminus : Whole d "-1" := (hone.minus (by decide)).whole
  cases d <;> simp [unlimited, hlimit, hall, hminus]

theorem tidyApart_bounds {limit offset : Option Phrase}
    (hlimit : ∀ p ∈ limit, p.Tidy f r.dialect) (hoffset : ∀ p ∈ offset, p.Tidy f r.dialect) :
    TidyApart f r.dialect (r.bounds limit offset) := by
  have hrows : TidyApart f r.dialect [.blank, .text "ROWS"] :=
    ⟨(Tidy.text (.of_isPlainName (by decide))).blank, apart_blank _⟩
  have honly : TidyApart f r.dialect [.blank, .text "ONLY"] :=
    ⟨(Tidy.text (.of_isPlainName (by decide))).blank, apart_blank _⟩
  have hwhole : Whole r.dialect "OFFSET" := .of_isPlainName (by decide)
  unfold bounds
  split
  · split
    · rename_i n m
      have hn : TidyApart f r.dialect (clause ["LIMIT"] n) :=
        tidyApart_clause (by decide) (hlimit n rfl)
      have hm : Tidy f r.dialect (.blank :: .text "OFFSET" :: .blank :: m) :=
        (Tidy.text_cons hwhole (hoffset m rfl).blank (apart_blank _)).blank
      rw [List.append_assoc]
      exact hn.append ⟨hm, apart_blank _⟩
    · rename_i n
      exact tidyApart_clause (by decide) (hlimit n rfl)
    · rename_i m
      refine ⟨Tidy.clause_words ?_ (hoffset m rfl), apart_clause _⟩
      intro w hw
      rcases List.mem_append.1 hw with hw | hw
      · exact whole_unlimited _ w hw
      · rw [List.mem_singleton.1 hw]
        exact hwhole
    · exact .nil
  · refine TidyApart.append ?_ ?_
    · cases offset with
      | none => exact .nil
      | some m => exact (tidyApart_clause (by decide) (hoffset m rfl)).append hrows
    · cases limit with
      | none => exact .nil
      | some n =>
        exact (tidyApart_clause (by decide) (hlimit n rfl)).append (hrows.append honly)

theorem tidy_sortKey {order : SortOrder} {collation : Option String} (hp : p.Tidy f r.dialect)
    (hcollation : ∀ c ∈ collation, Whole r.dialect c) :
    (sortKey p order collation).Tidy f r.dialect := by
  have hcollated : (sortKey p .asc collation).Tidy f r.dialect := by
    cases collation with
    | none => simpa [sortKey] using hp
    | some c =>
      have hc := tidy_keyword .COLLATE (Tidy.text (f := f) (hcollation c rfl))
      rw [sortKey, List.append_nil]
      exact hp.append hc.blank (apart_blank _)
  cases order with
  | asc => exact hcollated
  | desc =>
    have hkey : sortKey p .desc collation = sortKey p .asc collation ++ [.blank, .text "DESC"] := by
      simp [sortKey]
    have hdesc : Tidy f r.dialect [.text "DESC"] := .text (spells_keyword _ .DESC).whole
    rw [hkey]
    exact hcollated.append hdesc.blank (apart_blank _)

theorem OrderItem.tidy_renderAll {os : List OrderItem} (hes : ∀ e ∈ os.map (·.expr), e.WrittenTidy f r)
    (hcollation : ∀ o ∈ os, ∀ c ∈ o.collation, Whole r.dialect c)
    (h : Gives (OrderItem.renderAll r os) used ps used') : ∀ p ∈ ps, p.Tidy f r.dialect := by
  rw [renderAll_eq_mapM] at h
  refine forall_of_gives_mapM (fun o ho used p used' given => ?_) h
  obtain ⟨q, hq, rfl⟩ := gives_bind_pure.1 given
  exact tidy_sortKey (hes o.expr (List.mem_map_of_mem ho) _ _ _ hq) (hcollation o ho)

theorem Column.tidy_renderAll {cs : List Column} (hes : ∀ e ∈ cs.map (·.expr), e.WrittenTidy f r)
    (h : Gives (Column.renderAll r cs) used ps used') : ∀ p ∈ ps, p.Tidy f r.dialect := by
  rw [renderAll_eq_mapM] at h
  refine forall_of_gives_mapM (fun c hc used p used' given => ?_) h
  obtain ⟨q, hq, rfl⟩ := gives_bind_pure.1 given
  exact tidy_labelled (hes c.expr (List.mem_map_of_mem hc) _ _ _ hq) c.label

/-- A target of FROM, the joined ones with what joins them in front. -/
theorem tidy_joinTargets {joins : List JoinParts} {targets : List (Render Phrase)} {n : Nat}
    (hjoins : ∀ j ∈ joins, ∀ used p used', Gives j.condition used p used' → TidyApart f r.dialect p)
    (htargets : ∀ t ∈ targets, ∀ used p used', Gives t used p used' → p.Tidy f r.dialect)
    (h : Gives (r.joinTargets joins n targets) used p used') :
    p.Tidy f r.dialect ∧ (0 < n → Apart p) := by
  induction targets generalizing used p used' n with
  | nil =>
    obtain ⟨rfl, -⟩ := gives_pure.1 h
    exact ⟨.nil, fun _ => apart_nil⟩
  | cons t ts ih =>
    simp only [joinTargets, gives_bind] at h
    obtain ⟨p₁, more, ht, h⟩ := h
    have hp₁ := htargets t List.mem_cons_self _ _ _ ht
    have ih {used p used'} (h : Gives (r.joinTargets joins (n + 1) ts) used p used') :
        TidyApart f r.dialect p := by
      have h := ih (fun t ht => htargets t (List.mem_cons_of_mem _ ht)) h
      exact ⟨h.1, h.2 (Nat.succ_pos n)⟩
    split at h
    · rename_i hn
      have hn : ¬ 0 < n := by simp_all
      simp only [gives_bind, gives_pure] at h
      obtain ⟨_, _, ⟨rfl, rfl⟩, q, _, hq, rfl, rfl⟩ := h
      exact ⟨hp₁.append (ih hq).1 (ih hq).2, fun h => absurd h hn⟩
    · have hjoined : ∃ p₂ q more₂, TidyApart f r.dialect p₂ ∧
          Gives (r.joinTargets joins (n + 1) ts) more₂ q used' ∧ p = p₂ ++ q := by
        split at h
        · simp only [gives_bind, gives_pure] at h
          obtain ⟨_, _, ⟨rfl, rfl⟩, q, _, hq, rfl, rfl⟩ := h
          exact ⟨_, q, _, ⟨hp₁.blank.comma, apart_text rfl rfl _⟩, hq, rfl⟩
        · rename_i j hj
          simp only [gives_bind, gives_pure, gives_lift] at h
          obtain ⟨_, _, ⟨_, rfl⟩, c, _, hc, _, _, ⟨rfl, rfl⟩, q, _, hq, rfl, rfl⟩ := h
          have hc := hjoins j (List.mem_of_find?_eq_some hj) _ _ _ hc
          have hwords : ∀ w ∈ [j.kind.name, "JOIN"], IsPlainName w.toList := by
            cases j.kind <;> decide
          exact ⟨_, q, _, (tidyApart_clause hwords hp₁).append hc, hq, rfl⟩
      obtain ⟨p₂, q, more₂, hp₂, hq, rfl⟩ := hjoined
      have := hp₂.append (ih hq)
      exact ⟨this.1, fun _ => this.2⟩

theorem Target.tidy_parts {targets : List Target}
    (hqs : ∀ q ∈ targets.filterMap (·.rows.query?), q.WrittenTidy f r) :
    ∀ t ∈ Target.parts r targets, ∀ used p used', Gives t used p used' → p.Tidy f r.dialect := by
  induction targets with
  | nil => simp [Target.parts]
  | cons t ts ih =>
    obtain ⟨rows, label⟩ := t
    cases rows with
    | table i =>
      refine List.forall_mem_cons.2 ⟨fun used p used' h => ?_, ih hqs⟩
      obtain ⟨rfl, -⟩ := gives_pure.1 h
      exact tidy_labelledTarget (r.nameTidy_dotted _).tidy label
    | subquery q =>
      have hq : q.WrittenTidy f r := hqs q (by simp [TableSource.query?])
      refine List.forall_mem_cons.2 ⟨fun used p used' h => ?_, ih fun q hq => hqs q ?_⟩
      · simp only [gives_bind, gives_pure] at h
        obtain ⟨p, _, hp, rfl, rfl⟩ := h
        exact tidy_labelledTarget (hq _ _ _ hp).parens label
      · rw [List.filterMap_cons]
        exact List.mem_cons_of_mem _ hq

theorem Join.tidy_parts {joins : List Join}
    (hes : ∀ e ∈ joins.filterMap (·.condition.expr?), e.WrittenTidy f r) :
    ∀ j ∈ Join.parts r joins, ∀ used p used', Gives j.condition used p used' →
      TidyApart f r.dialect p := by
  induction joins with
  | nil => simp [Join.parts]
  | cons j js ih =>
    obtain ⟨kind, position, condition⟩ := j
    cases condition with
    | none =>
      refine List.forall_mem_cons.2 ⟨fun used p used' h => ?_, ih hes⟩
      obtain ⟨rfl, -⟩ := gives_pure.1 h
      exact .nil
    | predicate e =>
      have he : e.WrittenTidy f r := hes e (by simp [JoinCondition.expr?])
      refine List.forall_mem_cons.2 ⟨fun used p used' h => ?_, ih fun e he => hes e ?_⟩
      · simp only [gives_bind, gives_pure] at h
        obtain ⟨p, _, hp, rfl, rfl⟩ := h
        exact ⟨(tidy_keyword .ON (he _ _ _ hp)).blank, apart_blank _⟩
      · rw [List.filterMap_cons]
        exact List.mem_cons_of_mem _ he
    | columns names =>
      refine List.forall_mem_cons.2 ⟨fun used p used' h => ?_, ih hes⟩
      obtain ⟨rfl, -⟩ := gives_pure.1 h
      have hnames : ∀ p ∈ names.map fun n => [r.name n], Tidy f r.dialect p := by
        intro p hp
        obtain ⟨n, -, rfl⟩ := List.mem_map.1 hp
        exact tidy_name n
      exact ⟨(tidy_keyword .USING (Tidy.commas hnames).parens).blank, apart_blank _⟩

theorem FromClause.tidy_renderOption {o : Option FromClause} {q : Option Phrase}
    (hes : ∀ e ∈ (o.map (·.parts)).getD [], e.WrittenTidy f r)
    (hqs : ∀ q ∈ (o.map (·.queries)).getD [], q.WrittenTidy f r)
    (h : Gives (FromClause.renderOption r o) used q used') : ∀ p ∈ q, p.Tidy f r.dialect := by
  cases o with
  | none =>
    obtain ⟨rfl, -⟩ := gives_pure.1 h
    simp
  | some f =>
    obtain ⟨targets, joins⟩ := f
    simp only [FromClause.renderOption, FromClause.render, gives_bind, gives_pure] at h
    obtain ⟨p, _, hp, rfl, rfl⟩ := h
    have := (tidy_joinTargets (Join.tidy_parts hes) (Target.tidy_parts hqs) hp).1
    simpa using this

theorem tidy_distinctHead {distinct : Bool} {o : Option Phrase} (ho : ∀ p ∈ o, p.Tidy f r.dialect)
    (hp : p.Tidy f r.dialect) : Tidy f r.dialect (distinctHead distinct o ++ p) := by
  cases o with
  | none => exact tidy_arguments hp
  | some q =>
    have hq := (ho q rfl).parens.append hp.blank (apart_blank _)
    have hwords : Tidy f r.dialect (words ["DISTINCT", "ON"]) := Tidy.plain_words (by decide)
    simp only [distinctHead, List.append_assoc, List.cons_append]
    exact hwords.append hq.blank (apart_blank _)

/-- A SELECT whose parts are written tidily. -/
theorem Select.tidy_render {s : Select} (hes : ∀ e ∈ (Query.select s).parts, e.WrittenTidy f r)
    (hqs : ∀ q ∈ (Query.select s).queries, q.WrittenTidy f r)
    (hcollation : (Query.select s).Lexable r) : (Query.select s).WrittenTidy f r := by
  obtain ⟨distinct, distinctOn, columns, source, condition, groupBy, having, orderBy, limit,
    offset⟩ := s
  intro used p used' h
  simp only [Query.render, Select.render, gives_bind, gives_pure, gives_lift] at h
  obtain ⟨_, _, -, on, _, hon, cols, _, hcols, src, _, hsrc, cond, _, hcond, group, _, hgroup,
    hav, _, hhav, order, _, horder, lim, _, hlim, off, _, hoff, rfl, rfl⟩ := h
  simp only [Query.parts, List.mem_append, or_imp, forall_and] at hes
  obtain ⟨⟨⟨⟨⟨⟨⟨⟨hOn, hColumns⟩, hSource⟩, hCondition⟩, hGroup⟩, hHaving⟩, hOrder⟩, hLimit⟩,
    hOffset⟩ := hes
  have hhead : Tidy f r.dialect (distinctHead distinct on ++ commas cols) :=
    tidy_distinctHead (Expr.tidy_renderOption hOn hon)
      (Tidy.commas (Column.tidy_renderAll hColumns hcols))
  have hfrom : TidyApart f r.dialect (clauseOf ["FROM"] src) :=
    tidyApart_clauseOf (by decide) (FromClause.tidy_renderOption hSource hqs hsrc)
  have hwhere : TidyApart f r.dialect (clauseOf ["WHERE"] cond) :=
    tidyApart_clauseOf (by decide) (Expr.tidy_renderOption hCondition hcond)
  have hgroup : TidyApart f r.dialect (listClause ["GROUP", "BY"] group) :=
    tidyApart_listClause (by decide) (Expr.tidy_renderAll hGroup hgroup)
  have hhaving : TidyApart f r.dialect (clauseOf ["HAVING"] hav) :=
    tidyApart_clauseOf (by decide) (Expr.tidy_renderOption hHaving hhav)
  have horder : TidyApart f r.dialect (listClause ["ORDER", "BY"] order) :=
    tidyApart_listClause (by decide) (OrderItem.tidy_renderAll hOrder hcollation horder)
  have hbounds : TidyApart f r.dialect (r.bounds lim off) :=
    tidyApart_bounds (Expr.tidy_renderOption hLimit hlim) (Expr.tidy_renderOption hOffset hoff)
  have htail := hfrom.append (hwhere.append (hgroup.append (hhaving.append
    (horder.append hbounds))))
  have hall := tidy_keyword .SELECT (hhead.append htail.1 htail.2)
  simp only [List.append_assoc] at hall ⊢
  exact hall

theorem Query.tidy_renderBranches {op : SetOp} {n : Nat} {qs : List Query}
    (hqs : ∀ q ∈ qs, q.WrittenTidy f r) (h : Gives (Query.renderBranches r op n qs) used ps used') :
    ∀ p ∈ ps, p.Tidy f r.dialect := by
  induction qs generalizing used ps used' n with
  | nil =>
    obtain ⟨rfl, -⟩ := gives_pure.1 h
    simp
  | cons q qs ih =>
    simp only [Query.renderBranches, gives_bind, gives_pure, gives_lift] at h
    obtain ⟨p, _, hp, b, _, ⟨hb, rfl⟩, bs, _, hbs, rfl, rfl⟩ := h
    have hp := hqs q List.mem_cons_self _ _ _ hp
    have hbranch : b.Tidy f r.dialect := by
      unfold branch at hb
      split at hb
      · cases hb
        exact hp
      · split at hb
        · cases hb
          exact hp.parens
        · split at hb
          · cases hb
            exact hp
          · cases hb
    have htidy := ih (fun x hx => hqs x (List.mem_cons_of_mem _ hx)) hbs
    exact List.forall_mem_cons.2 ⟨hbranch, htidy⟩

/-- The words of a set operator. -/
theorem SetOp.tidy_sql (op : SetOp) : Tidy f r.dialect [.text op.sql] := by
  cases op
  case union => exact Tidy.text (spells_keyword _ .UNION).whole
  case unionAll => exact Tidy.text (spells_keywords _ .UNION (spells_keyword _ .ALL)).whole
  case intersect => exact Tidy.text (spells_keyword _ .INTERSECT).whole
  case intersectAll => exact Tidy.text (spells_keywords _ .INTERSECT (spells_keyword _ .ALL)).whole
  case except => exact Tidy.text (spells_keyword _ .EXCEPT).whole
  case exceptAll => exact Tidy.text (spells_keywords _ .EXCEPT (spells_keyword _ .ALL)).whole

/-- A compound whose parts are written tidily. -/
theorem Compound.tidy_render {c : Compound} (hes : ∀ e ∈ (Query.compound c).parts, e.WrittenTidy f r)
    (hqs : ∀ q ∈ (Query.compound c).queries, q.WrittenTidy f r)
    (hcollation : (Query.compound c).Lexable r) : (Query.compound c).WrittenTidy f r := by
  obtain ⟨op, branches, orderBy, limit, offset⟩ := c
  intro used p used' h
  simp only [Query.render, Compound.render, gives_bind, gives_pure, gives_lift] at h
  obtain ⟨_, _, -, bs, _, hbs, order, _, horder, lim, _, hlim, off, _, hoff, rfl, rfl⟩ := h
  simp only [Query.parts, List.mem_append, or_imp, forall_and] at hes
  obtain ⟨⟨hOrder, hLimit⟩, hOffset⟩ := hes
  have hbranches : Tidy f r.dialect (Phrase.sepBy [.clause, .text op.sql, .clause] bs) := by
    refine Tidy.sepBy (fun hq => ?_) (fun _ => apart_clause _) (Query.tidy_renderBranches hqs hbs)
    exact (op.tidy_sql.append hq.clause (apart_clause _)).clause
  have horder : TidyApart f r.dialect (listClause ["ORDER", "BY"] order) :=
    tidyApart_listClause (by decide) (OrderItem.tidy_renderAll hOrder hcollation horder)
  have hbounds : TidyApart f r.dialect (r.bounds lim off) :=
    tidyApart_bounds (Expr.tidy_renderOption hLimit hlim) (Expr.tidy_renderOption hOffset hoff)
  have htail := horder.append hbounds
  have hall := hbranches.append htail.1 htail.2
  simpa only [List.append_assoc] using hall

theorem Expr.tidy_render {e : Expr} (hlex : e.LexableAs f r) (hes : ∀ x ∈ e.parts, x.WrittenTidy f r)
    (hqs : ∀ x ∈ e.parts, ∀ q ∈ x.queries, q.WrittenTidy f r)
    (hq : ∀ q ∈ e.queries, q.WrittenTidy f r) : e.WrittenTidy f r := by
  intro used p used' h
  cases e with
  | literal l =>
    obtain ⟨rfl, -⟩ := gives_pure.1 h
    exact Tidy.text hlex
  | name i =>
    obtain ⟨rfl, -⟩ := gives_pure.1 h
    exact (r.nameTidy_dotted _).tidy
  | param q =>
    simp only [Expr.render, RenderContext.param, gives_bind, gives_pure, gives_lift,
      gives_recorded] at h
    obtain ⟨_, _, _, text, _, ⟨htext, -⟩, _, _, _, rfl, -⟩ := h
    exact hlex _ _ htext
  | call function distinct args => exact tidy_call hlex hes (fun q hq => hqs _ hq q (by simp [queries])) _ _ _ h
  | operation op operands =>
    exact tidy_operation hlex hes (fun q hq => hqs _ hq q (by simp [queries])) (gives_operation.1 h).2
  | subquery q =>
    simp only [Expr.render, gives_bind, gives_pure] at h
    obtain ⟨p, _, hp, rfl, rfl⟩ := h
    exact (hq q (by simp [queries]) _ _ _ hp).parens
  | cases base arms otherwise =>
    simp only [parts, List.mem_append, List.mem_flatMap, or_imp, forall_and] at hes
    obtain ⟨⟨hbase, harms⟩, hotherwise⟩ := hes
    refine tidy_cases hbase (fun arm harm => ?_) hotherwise _ _ _ h
    exact ⟨harms _ ⟨arm, harm, by simp⟩, harms _ ⟨arm, harm, by simp⟩⟩
  | cast e type => exact tidy_cast (hes e (by simp [parts])) hlex _ _ _ h
  | wildcard table =>
    cases table with
    | none =>
      obtain ⟨rfl, -⟩ := gives_pure.1 h
      exact Tidy.text spells_star.whole
    | some table =>
      obtain ⟨rfl, -⟩ := gives_pure.1 h
      exact (r.nameTidy_dotted _).star

end Parts

/-- Whatever is written of expressions and queries is tidy, if the texts taken over as they stand
are, as far as it is shown. -/
theorem tidy_render_as {α : Type} (f : Word → α) (r : RenderContext) :
    (∀ e : Expr, e.Everywhere (Expr.LexableAs f r) (Query.Lexable r) → e.WrittenTidy f r) ∧
      ∀ q : Query, q.Everywhere (Expr.LexableAs f r) (Query.Lexable r) → q.WrittenTidy f r := by
  have h : (∀ e : Expr, e.Everywhere (Expr.LexableAs f r) (Query.Lexable r) →
        e.WrittenTidy f r ∧ ∀ q ∈ e.queries, q.WrittenTidy f r) ∧
      ∀ q : Query, q.Everywhere (Expr.LexableAs f r) (Query.Lexable r) → q.WrittenTidy f r := by
    refine tree_induction (fun e hes hqs he => ?_) fun q hes hqs hq => ?_
    · have hes x (hx : x ∈ e.parts) := hes x hx (he.parts x hx)
      have hqs q (hq : q ∈ e.queries) := hqs q hq (he.queries q hq)
      exact ⟨Expr.tidy_render he.here (fun x hx => (hes x hx).1) (fun x hx => (hes x hx).2) hqs, hqs⟩
    · have hes x (hx : x ∈ q.parts) := (hes x hx (hq.parts x hx)).1
      have hqs q' (hq' : q' ∈ q.queries) := hqs q' hq' (hq.queries q' hq')
      cases q with
      | select s => exact Select.tidy_render hes hqs hq.here
      | compound c => exact Compound.tidy_render hes hqs hq.here
  exact ⟨fun e he => (h.1 e he).1, h.2⟩

/-- Whatever is written of expressions and queries is tidy, if the texts taken over as they stand
are. -/
theorem tidy_render (r : RenderContext) :
    (∀ e : Expr, e.Everywhere (Expr.Lexable r) (Query.Lexable r) → e.WrittenTidy id r) ∧
      ∀ q : Query, q.Everywhere (Expr.Lexable r) (Query.Lexable r) → q.WrittenTidy id r := by
  obtain ⟨expr, query⟩ := tidy_render_as id r
  exact ⟨fun e he => expr e (he.mono (fun _ h => h.as) fun _ h => h),
    fun q hq => query q (hq.mono (fun _ h => h.as) fun _ h => h)⟩

end BoundSql
