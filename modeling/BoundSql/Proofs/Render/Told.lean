import BoundSql.Proofs.Render.Tells
import BoundSql.Proofs.Render.Tidy

/-!
# Written trees tell what they are worth

Whatever is written of an expression or query, its words are worth at least what the tree is.
-/

namespace BoundSql

open Phrase Render RenderContext Token

variable {N : Type} [AddMonoid N] [Preorder N] {r : RenderContext} (v : Writing N r)

/-- Whatever is written of the expression tells what it is worth. -/
def Expr.Told (e : Expr) : Prop :=
  ∀ used p used', Gives (e.render r) used p used' →
    Tells v.marks r.dialect (e.worth v.toWeights) p

/-- Whatever is written of the query tells what it is worth. -/
def Query.Told (q : Query) : Prop :=
  ∀ used p used', Gives (q.render r) used p used' →
    Tells v.marks r.dialect (q.worth v.toWeights) p

/-- The phrases are written for the items, and tell what these are worth. -/
abbrev Writing.TellsAll {α : Type} (f : α → WithTop N) (xs : List α) (ps : List Phrase) : Prop :=
  List.Forall₂ (fun x p => Tells v.marks r.dialect (f x) p) xs ps

section Parts

variable {used used' : List String} {p q : Phrase} {ps : List Phrase} {c c' : WithTop N}

theorem Expr.told_renderAll {es : List Expr} (hes : ∀ e ∈ es, e.Told v)
    (h : Gives (Expr.renderAll r es) used ps used') :
    v.TellsAll (Expr.worth v.toWeights) es ps := by
  rw [renderAll_eq_mapM] at h
  exact forall₂_of_gives_mapM hes h

/-- What is written of an expression that may be missing. -/
theorem Expr.told_renderOption {o : Option Expr} {a : Option Phrase}
    (ho : ∀ e ∈ o.toList, e.Told v) (h : Gives (Expr.renderOption r o) used a used') :
    Option.Rel (fun e p => Tells v.marks r.dialect (e.worth v.toWeights) p) o a := by
  cases o with
  | none =>
    obtain ⟨rfl, -⟩ := gives_pure.1 h
    exact .none
  | some e =>
    simp only [Expr.renderOption, gives_bind, gives_pure] at h
    obtain ⟨p, _, hp, rfl, rfl⟩ := h
    exact .some (ho e (by simp) _ _ _ hp)

variable [AddLeftMono N]

theorem Expr.tells_commas {es : List Expr} (h : v.TellsAll (Expr.worth v.toWeights) es ps) :
    Tells v.marks r.dialect (Expr.worthAll v.toWeights es) (commas ps) := by
  rw [Expr.worthAll_eq_sum]
  exact v.tells_commas h

theorem Expr.tells_asOperand {op : Operator} {right : Bool} {e : Expr}
    (h : Tells v.marks r.dialect c p) : Tells v.marks r.dialect c (e.asOperand op right p) := by
  unfold asOperand
  split
  · exact v.tells_parens h
  · exact h

theorem Expr.told_renderOperands {op : Operator} {es : List Expr} (hes : ∀ e ∈ es, e.Told v)
    (h : Gives (Expr.renderOperands r op es) used ps used') :
    v.TellsAll (Expr.worth v.toWeights) es ps := by
  rw [renderOperands_eq_mapM] at h
  refine forall₂_of_gives_mapM (fun e he used p used' given => ?_) h
  obtain ⟨q, hq, rfl⟩ := gives_bind_pure.1 given
  exact tells_asOperand v (hes e he _ _ _ hq)

/-- An operator between phrases. -/
theorem Writing.tells_infix {op : Operator} (hop : op.ReadIn r.dialect)
    (hp : Tells v.marks r.dialect c p) (hq : Tells v.marks r.dialect c' q) :
    Tells v.marks r.dialect (c + c') (p ++ [.blank, op.mark, .blank] ++ q) := by
  have mark := v.tells_operator hop
  rw [List.append_assoc]
  exact hp.append (mark.behind hq.blank).blank

theorem Writing.tells_negated (h : Tells v.marks r.dialect c p) :
    Tells v.marks r.dialect c (negated p) := by
  unfold negated
  split
  · exact v.tells_minus.behind (v.tells_parens h)
  · exact v.tells_minus.behind h

theorem Writing.tells_keyword {s : String} (hs : Text.isQuiet s = true)
    (hp : Tells v.marks r.dialect c p) : Tells v.marks r.dialect c (.text s :: .blank :: p) :=
  (v.tells_quiet hs).behind hp.blank

theorem Expr.tells_operation {op : Operator} {operands : List Expr} (hop : op.ReadIn r.dialect)
    (hes : ∀ e ∈ operands, e.Told v) (hqs : ∀ q, .subquery q ∈ operands → q.Told v)
    (h : OperationGives r op used used' operands p) :
    Tells v.marks r.dialect ((operation op operands).worth v.toWeights) p := by
  have mark := v.tells_operator hop
  cases h with
  | prefixWord _ he =>
    have he := hes _ (by simp) _ _ _ he
    simpa [worth, worthAll] using mark.behind (tells_asOperand v he).blank
  | prefixSign _ he =>
    have he := hes _ (by simp) _ _ _ he
    simpa [worth, worthAll] using mark.behind (tells_asOperand v he)
  | negation _ he =>
    have he := hes _ (by simp) _ _ _ he
    simpa [worth, worthAll] using v.tells_negated (tells_asOperand v he)
  | postfixWords _ he =>
    have he := hes _ (by simp) _ _ _ he
    simpa [worth, worthAll] using (tells_asOperand v he).before mark.blank
  | membershipQuery _ he hq =>
    have he := hes _ (by simp) _ _ _ he
    have hq := hqs _ (by simp) _ _ _ hq
    simpa [worth, worthAll] using
      v.tells_infix hop (tells_asOperand v he) (v.tells_parens hq)
  | membershipList _ _ he hps =>
    have he := hes _ (by simp) _ _ _ he
    have hps := told_renderAll v (fun x hx => hes x (List.mem_cons_of_mem _ hx)) hps
    simpa [worth, worthAll] using
      v.tells_infix hop (tells_asOperand v he) (v.tells_parens (tells_commas v hps))
  | range _ he hlow hhigh =>
    have he := hes _ (by simp) _ _ _ he
    have hlow := hes _ (by simp) _ _ _ hlow
    have hhigh := hes _ (by simp) _ _ _ hhigh
    rw [List.append_assoc]
    simp only [worth, worthAll, add_zero]
    rw [← add_assoc]
    exact (v.tells_infix hop (tells_asOperand v he) (tells_asOperand v hlow)).append
      (v.tells_keyword (by decide) (tells_asOperand v hhigh)).blank
  | chain _ _ he hsecond hothers =>
    have he := hes _ (by simp) _ _ _ he
    have hsecond := hes _ (by simp) _ _ _ hsecond
    have hothers := told_renderOperands v (fun x hx => hes x (by simp [hx])) hothers
    rw [worth, worthAll_eq_sum]
    refine Tells.sepBy (mark.behind Tells.nil.blank).blank ?_
    exact .cons (tells_asOperand v he) (.cons (tells_asOperand v hsecond) hothers)

theorem Expr.told_renderArms {arms : List (Expr × Expr)}
    (harms : ∀ arm ∈ arms, arm.1.Told v ∧ arm.2.Told v)
    (h : Gives (Expr.renderArms r arms) used p used') :
    Tells v.marks r.dialect (worthArms v.toWeights arms) p := by
  induction arms generalizing used p with
  | nil =>
    obtain ⟨rfl, -⟩ := gives_pure.1 h
    rw [worthArms]
    exact .nil
  | cons arm arms ih =>
    obtain ⟨w, t⟩ := arm
    simp only [Expr.renderArms, gives_bind, gives_pure] at h
    obtain ⟨p₁, _, hw, p₂, _, ht, q, _, hq, rfl, rfl⟩ := h
    obtain ⟨hw', ht'⟩ := harms _ List.mem_cons_self
    have hq := ih (fun x hx => harms x (List.mem_cons_of_mem _ hx)) hq
    have when := v.tells_keyword (s := "WHEN") (by decide) (hw' _ _ _ hw)
    have «then» := v.tells_keyword (s := "THEN") (by decide) (ht' _ _ _ ht)
    rw [worthArms]
    simpa using (when.blank.append «then».blank).append hq

/-- What stands between the parentheses of a call. -/
theorem Writing.tells_arguments {distinct : Bool} (hp : Tells v.marks r.dialect c p) :
    Tells v.marks r.dialect c ((if distinct then [.text "DISTINCT", .blank] else []) ++ p) := by
  cases distinct
  · exact hp
  · exact v.tells_keyword (by decide) hp

/-- The name of a function and its arguments. -/
theorem Writing.tells_call {function : String} (hp : Tells v.marks r.dialect c p) :
    Tells v.marks r.dialect (v.function function + c) (.text function :: parens p) := by
  intro n hn ws
  obtain ⟨a, b, ha, rfl, rfl⟩ := WithTop.add_eq_coe.1 hn
  have arguments := hp.before v.tells_rightParen
  have inner := arguments b rfl ws
  have opened := v.keep_punct .leftParen (by decide) (by decide) (.sign .leftParen "(")
    (wordsIn r.dialect (p ++ [.text ")"]) ++ ws) rfl
  have words : wordsIn r.dialect (.text function :: parens p) ++ ws =
      r.dialect.words function.toList ++
        .sign .leftParen "(" :: (wordsIn r.dialect (p ++ [.text ")"]) ++ ws) := by
    rw [wordsIn_cons, parens, List.cons_append, wordsIn_cons, Mark.words, Mark.words,
      Tidy.words_leftParen, List.append_assoc, List.append_assoc]
    rfl
  rw [words, add_assoc]
  exact (add_le_add_right (inner.trans opened) a).trans (v.function_le function a ha.symm _)

theorem Writing.tells_after {s : String} (hs : Text.isQuiet s = true) {e : Option Expr}
    {o : Option Phrase}
    (h : Option.Rel (fun e p => Tells v.marks r.dialect (e.worth v.toWeights) p) e o) :
    Tells v.marks r.dialect (Expr.worthOption v.toWeights e)
      (after [.blank, .text s, .blank] o) := by
  cases h with
  | none =>
    rw [Expr.worthOption]
    exact .nil
  | some hp =>
    rw [Expr.worthOption]
    exact (v.tells_keyword hs hp).blank

theorem Expr.told_cases {base otherwise : Option Expr} {arms : List (Expr × Expr)}
    (hbase : ∀ e ∈ base.toList, e.Told v) (harms : ∀ arm ∈ arms, arm.1.Told v ∧ arm.2.Told v)
    (hotherwise : ∀ e ∈ otherwise.toList, e.Told v) : (cases base arms otherwise).Told v := by
  intro used p used' h
  simp only [Expr.render, gives_bind, gives_pure] at h
  obtain ⟨b, _, hb, q, _, hq, o, _, ho, rfl, rfl⟩ := h
  have start : Tells v.marks r.dialect (worthOption v.toWeights base) (after [.blank] b) := by
    cases told_renderOption v hbase hb with
    | none =>
      rw [worthOption]
      exact .nil
    | some hp =>
      rw [worthOption]
      exact hp.blank
  have opened := (v.tells_quiet (s := "CASE") (by decide)).behind start
  have tail := v.tells_after (s := "ELSE") (by decide) (told_renderOption v hotherwise ho)
  have ended := (v.tells_quiet (s := "END") (by decide)).blank
  rw [worth]
  exact ((opened.append (told_renderArms v harms hq)).append tail).before ended

theorem Expr.told_cast {e : Expr} {type : DataType} (he : e.Told v) : (cast e type).Told v := by
  intro used p used' h
  simp only [Expr.render, gives_bind, gives_pure] at h
  obtain ⟨p, _, hp, rfl, rfl⟩ := h
  have opened := v.tells_leftParen.behind (he _ _ _ hp)
  have front := (v.tells_quiet (s := "CAST") (by decide)).behind opened
  intro n hn ws
  rw [worth] at hn
  obtain ⟨a, b, ha, hb, rfl⟩ := WithTop.add_eq_coe.1 hn
  have closed := v.keep_punct .rightParen (by decide) (by decide) (.sign .rightParen ")") ws rfl
  have behind := (add_le_add_right closed b).trans (v.type_le type b hb.symm ws)
  have as : r.dialect.words "AS".toList = [.key .AS] := (spells_keyword _ .AS).words_eq
  have words : wordsIn r.dialect (.text "CAST" :: parens (p ++ [.blank, .text "AS", .blank,
      .text type.sql])) ++ ws = wordsIn r.dialect (.text "CAST" :: .text "(" :: p) ++
        .key .AS :: (r.dialect.words type.sql.toList ++ .sign .rightParen ")" :: ws) := by
    simp only [parens, wordsIn_cons, wordsIn_append, wordsIn_nil, Mark.words,
      Tidy.words_rightParen, as, List.cons_append, List.append_assoc, List.nil_append]
  rw [words, add_assoc]
  exact (add_le_add_right behind a).trans (front a ha.symm _)

/-! ## Clauses -/

theorem Writing.tells_labelled (hp : Tells v.marks r.dialect c p) (label : Option String) :
    Tells v.marks r.dialect (c + v.nameOption label) (r.labelled p label) := by
  cases label with
  | none =>
    rw [v.nameOption_none, add_zero]
    exact hp
  | some label =>
    rw [v.nameOption_some]
    exact hp.append (v.tells_label label).blank

theorem Writing.tells_labelledTarget (hp : Tells v.marks r.dialect c p) (label : Option String) :
    Tells v.marks r.dialect (c + v.nameOption label) (r.labelledTarget p label) := by
  cases label with
  | none => exact v.tells_labelled hp none
  | some label =>
    rw [labelledTarget]
    split
    · rw [v.nameOption_some]
      exact hp.append (v.tells_name label).blank
    · exact v.tells_labelled hp (some label)

/-- Names with commas between them. -/
theorem Writing.tells_nameList (names : List String) :
    Tells v.marks r.dialect (v.columns names) (commas (names.map fun n => [r.name n])) := by
  refine v.tells_commas ?_
  rw [List.forall₂_map_right_iff, List.forall₂_same]
  exact fun n _ => v.tells_name n

theorem Writing.tells_clause {ws : List String} (hws : ∀ w ∈ ws, Text.isQuiet w = true)
    (hp : Tells v.marks r.dialect c p) : Tells v.marks r.dialect c (clause ws p) :=
  hp.clause_words fun w hw => v.tells_quiet (hws w hw)

theorem Writing.tells_clauseOf {ws : List String} (hws : ∀ w ∈ ws, Text.isQuiet w = true)
    {e : Option Expr} {o : Option Phrase}
    (h : Option.Rel (fun e p => Tells v.marks r.dialect (e.worth v.toWeights) p) e o) :
    Tells v.marks r.dialect (Expr.worthOption v.toWeights e) (clauseOf ws o) := by
  cases h with
  | none =>
    rw [Expr.worthOption]
    exact .nil
  | some hp =>
    rw [Expr.worthOption]
    exact v.tells_clause hws hp

theorem Writing.tells_listClause {α : Type} {f : α → WithTop N} {xs : List α} {ws : List String}
    (hws : ∀ w ∈ ws, Text.isQuiet w = true) (h : v.TellsAll f xs ps) :
    Tells v.marks r.dialect (xs.map f).sum (listClause ws ps) := by
  cases h with
  | nil => exact .nil
  | cons hp hps => exact v.tells_clause hws (v.tells_commas (.cons hp hps))

theorem Column.told_renderAll {cs : List Column} (hes : ∀ e ∈ cs.map (·.expr), e.Told v)
    (h : Gives (Column.renderAll r cs) used ps used') :
    v.TellsAll (Column.worth v.toWeights) cs ps := by
  rw [renderAll_eq_mapM] at h
  refine forall₂_of_gives_mapM (fun c hc used p used' given => ?_) h
  obtain ⟨q, hq, rfl⟩ := gives_bind_pure.1 given
  exact v.tells_labelled (hes c.expr (List.mem_map_of_mem hc) _ _ _ hq) c.label

theorem Writing.tells_sortKey (hp : Tells v.marks r.dialect c p) (order : SortOrder)
    (collation : Option String) :
    Tells v.marks r.dialect (c + v.collationOption collation) (sortKey p order collation) := by
  have collated : Tells v.marks r.dialect (c + v.collationOption collation)
      (sortKey p .asc collation) := by
    cases collation with
    | none => simpa [sortKey] using hp
    | some s =>
      rw [v.collationOption_some, sortKey, List.append_nil]
      exact hp.append (v.tells_keyword (by decide) (v.tells_collation s)).blank
  cases order with
  | asc => exact collated
  | desc =>
    have key : sortKey p .desc collation = sortKey p .asc collation ++ [.blank, .text "DESC"] := by
      unfold sortKey
      rw [List.append_nil]
    rw [key]
    exact collated.before (v.tells_quiet (by decide)).blank

theorem OrderItem.told_renderAll {os : List OrderItem} (hes : ∀ e ∈ os.map (·.expr), e.Told v)
    (h : Gives (OrderItem.renderAll r os) used ps used') :
    v.TellsAll (OrderItem.worth v.toWeights) os ps := by
  rw [renderAll_eq_mapM] at h
  refine forall₂_of_gives_mapM (fun o ho used p used' given => ?_) h
  obtain ⟨q, hq, rfl⟩ := gives_bind_pure.1 given
  exact v.tells_sortKey (hes o.expr (List.mem_map_of_mem ho) _ _ _ hq) o.order o.collation

/-- The words that OFFSET needs in front of it in some dialects. -/
theorem Writing.tells_unlimited : ∀ w ∈ unlimited r.dialect, Tells v.marks r.dialect 0 [.text w] := by
  have limit := v.tells_quiet (s := "LIMIT") (by decide)
  have most : Tells v.marks r.dialect 0 [.text "18446744073709551615"] :=
    v.tells_decimal (.whole ⟨by decide, List.all_eq_true.1 (by decide)⟩)
  have one : IsDecimal "1".toList := .whole ⟨by decide, List.all_eq_true.1 (by decide)⟩
  have minus := v.tells_negative (v.tells_decimal one) one.spells.whole one.head?_ne_minus
  simp only [String.reduceAppend] at minus
  intro w hw
  cases hd : r.dialect <;> simp only [hd, unlimited, List.mem_cons, List.not_mem_nil, or_false] at hw
  · rcases hw with rfl | rfl <;> rw [← hd] <;> assumption
  · rcases hw with rfl | rfl <;> rw [← hd] <;> assumption

omit [AddLeftMono N] in
/-- Two clauses whose order is not known tell what they do in any order. -/
theorem Writing.tells_either {a b : WithTop N}
    (h : Tells v.marks r.dialect (a + b) p ∨ Tells v.marks r.dialect (b + a) p) :
    Tells v.marks r.dialect (Worth.either a b) p := by
  intro n hn ws
  unfold Worth.either at hn
  split at hn
  · rename_i zero
    have same : a + b = b + a := by rcases zero with rfl | rfl <;> simp
    rcases h with h | h
    · exact h n hn ws
    · exact h n (same.symm.trans hn) ws
  · cases hn

/-- The clauses that bound the number of rows. -/
theorem Writing.tells_bounds {limit offset : Option Expr} {l o : Option Phrase}
    (hlimit : Option.Rel (fun e p => Tells v.marks r.dialect (e.worth v.toWeights) p) limit l)
    (hoffset : Option.Rel (fun e p => Tells v.marks r.dialect (e.worth v.toWeights) p) offset o) :
    Tells v.marks r.dialect (Worth.either (Expr.worthOption v.toWeights limit)
      (Expr.worthOption v.toWeights offset)) (r.bounds l o) := by
  have rows := (v.tells_quiet (s := "ROWS") (by decide)).blank
  have only := (v.tells_quiet (s := "ONLY") (by decide)).blank
  have offsetWord := v.tells_quiet (s := "OFFSET") (by decide)
  have skipping {m : Phrase} {c : WithTop N} (hm : Tells v.marks r.dialect c m) :
      Tells v.marks r.dialect c (clause (unlimited r.dialect ++ ["OFFSET"]) m) := by
    refine hm.clause_words fun w hw => ?_
    rcases List.mem_append.1 hw with hw | hw
    · exact v.tells_unlimited w hw
    · rw [List.mem_singleton.1 hw]
      exact offsetWord
  unfold bounds
  split
  · refine v.tells_either (.inl ?_)
    cases hlimit with
    | none =>
      cases hoffset with
      | none =>
        rw [Expr.worthOption, add_zero]
        exact .nil
      | some hm =>
        rw [Expr.worthOption, Expr.worthOption, zero_add]
        exact skipping hm
    | some hn =>
      have limited := v.tells_clause (by decide : ∀ w ∈ ["LIMIT"], Text.isQuiet w = true) hn
      cases hoffset with
      | none =>
        rw [Expr.worthOption, Expr.worthOption, add_zero]
        exact limited
      | some hm =>
        rw [Expr.worthOption, Expr.worthOption]
        have both := limited.append (v.tells_keyword (s := "OFFSET") (by decide) hm).blank
        simpa using both
  · refine v.tells_either (.inr (Tells.append ?_ ?_))
    · cases hoffset with
      | none =>
        rw [Expr.worthOption]
        exact .nil
      | some hm =>
        rw [Expr.worthOption]
        exact (v.tells_clause (by decide) hm).before rows
    · cases hlimit with
      | none =>
        rw [Expr.worthOption]
        exact .nil
      | some hn =>
        rw [Expr.worthOption]
        exact (v.tells_clause (by decide) hn).before (rows.behind only)

variable [AddRightMono N]

theorem Expr.told_call {function : String} {distinct : Bool} {args : List Expr}
    (hes : ∀ e ∈ args, e.Told v) (hqs : ∀ q, .subquery q ∈ args → q.Told v) :
    (call function distinct args).Told v := by
  intro used p used' h
  rw [Expr.render.eq_def] at h
  dsimp only at h
  split at h
  · rename_i q
    have worth : (call function distinct [.subquery q]).worth v.toWeights =
        v.function function + q.worth v.toWeights := by simp [worth, worthAll]
    rw [worth]
    split at h
    · rename_i named
      simp only [gives_bind, gives_pure] at h
      obtain ⟨p, _, hq, rfl, rfl⟩ := h
      have query := v.tells_keyword (s := "EXISTS") (by decide)
        (v.tells_parens (hqs q (by simp) _ _ _ hq))
      intro n hn ws
      obtain ⟨a, b, ha, hb, rfl⟩ := WithTop.add_eq_coe.1 hn
      have nothing := add_le_add_left (v.exists_le function a named ha.symm) (b + v.marks ws)
      rw [zero_add] at nothing
      rw [add_assoc]
      exact nothing.trans (query b hb.symm ws)
    · simp only [gives_bind, gives_pure] at h
      obtain ⟨p, _, hq, rfl, rfl⟩ := h
      exact v.tells_call (v.tells_arguments (v.tells_parens (hqs q (by simp) _ _ _ hq)))
  · simp only [gives_bind, gives_pure] at h
    obtain ⟨ps, _, hps, rfl, rfl⟩ := h
    rw [worth]
    exact v.tells_call (v.tells_arguments (tells_commas v (told_renderAll v hes hps)))

omit [AddRightMono N] in
theorem Target.told_part {t : Target} (h : ∀ q ∈ t.rows.query?, q.Told v)
    (written : Gives (t.part r) used p used') :
    Tells v.marks r.dialect (t.worth v.toWeights) p := by
  obtain ⟨rows, label⟩ := t
  cases rows with
  | table i =>
    obtain ⟨rfl, -⟩ := gives_pure.1 written
    exact v.tells_labelledTarget (v.tells_names i.parts) label
  | subquery q =>
    simp only [part, gives_bind, gives_pure] at written
    obtain ⟨p, _, hp, rfl, rfl⟩ := written
    exact v.tells_labelledTarget (v.tells_parens (h q rfl _ _ _ hp)) label

omit [AddRightMono N] in
theorem Join.told_part {j : Join} (h : ∀ e ∈ j.condition.expr?, e.Told v)
    (written : Gives (j.part r).condition used p used') :
    Tells v.marks r.dialect (j.condition.worth v.toWeights) p := by
  obtain ⟨kind, position, condition⟩ := j
  cases condition with
  | none =>
    obtain ⟨rfl, -⟩ := gives_pure.1 written
    exact .nil
  | predicate e =>
    simp only [part, gives_bind, gives_pure] at written
    obtain ⟨p, _, hp, rfl, rfl⟩ := written
    exact (v.tells_keyword (s := "ON") (by decide) (h e rfl _ _ _ hp)).blank
  | columns names =>
    obtain ⟨rfl, -⟩ := gives_pure.1 written
    exact (v.tells_keyword (s := "USING") (by decide)
      (v.tells_parens (v.tells_nameList names))).blank

namespace FromClause

variable {f : FromClause}

omit [AddRightMono N] in
/-- The targets from index `n + 1` on are written with the joins from index `n` on. -/
theorem tells_joinTargets (ordered : f.Ordered) (ts : List Target) (n : Nat)
    (length : ts.length = (f.joins.drop n).length)
    (htargets : ∀ t ∈ ts, ∀ q ∈ t.rows.query?, q.Told v)
    (hjoins : ∀ j ∈ f.joins, ∀ e ∈ j.condition.expr?, e.Told v)
    (h : Gives (r.joinTargets (f.joins.map (Join.part r)) (n + 1) (ts.map (Target.part r))) used p
      used') :
    Tells v.marks r.dialect (Worth.joined (ts.map (Target.worth v.toWeights))
      ((f.joins.drop n).map (Join.worth v.toWeights))) p := by
  induction ts generalizing n used p with
  | nil =>
    rw [List.length_eq_zero_iff.1 length.symm]
    obtain ⟨rfl, -⟩ := gives_pure.1 h
    exact .nil
  | cons t ts ih =>
    obtain ⟨j, inside, here, drop⟩ : ∃ j, ∃ _ : n < f.joins.length, f.joins[n]? = some j ∧
        f.joins.drop n = j :: f.joins.drop (n + 1) := by
      rw [List.length_drop, List.length_cons] at length
      have inside : n < f.joins.length := by omega
      exact ⟨_, inside, List.getElem?_eq_getElem inside, List.drop_eq_getElem_cons inside⟩
    have found : (f.joins.map (Join.part r)).find? (·.position == n + 1) = some (j.part r) := by
      rw [List.find?_map]
      exact congrArg (Option.map (Join.part r)) ((ordered.find?_position n).trans here)
    have later : (n + 1 == 0) = false := rfl
    rw [drop, List.length_cons, List.length_cons] at length
    rw [List.map_cons, joinTargets, found] at h
    simp only [later, Bool.false_eq_true, if_false, gives_bind, gives_pure, gives_lift] at h
    obtain ⟨p₁, _, ht, _, _, ⟨-, rfl⟩, c, _, hc, _, _, ⟨rfl, rfl⟩, q, _, hq, rfl, rfl⟩ := h
    obtain ⟨target, targets⟩ := List.forall_mem_cons.1 htargets
    have ht := Target.told_part v target ht
    have hc := Join.told_part v (hjoins j (List.mem_of_getElem? here)) hc
    have hq := ih (n + 1) (Nat.succ.inj length) targets hq
    have clause : Tells v.marks r.dialect (v.join j.kind + t.worth v.toWeights)
        (clause [j.kind.name, "JOIN"] p₁) := by
      have joined := (v.tells_join j.kind).append ht.blank
      exact joined.clause
    rw [drop, List.map_cons, List.map_cons, Join.worth, Worth.joined]
    exact (clause.append hc).append hq

omit [AddRightMono N] in
theorem told_render (ordered : f.Ordered) (hparts : ∀ e ∈ f.parts, e.Told v)
    (hqueries : ∀ q ∈ f.queries, q.Told v) (h : Gives (f.render r) used p used') :
    Tells v.marks r.dialect (f.worth v.toWeights) p := by
  have conditions (j : Join) (hj : j ∈ f.joins) : ∀ e ∈ j.condition.expr?, e.Told v :=
    fun e he => hparts e (List.mem_filterMap.2 ⟨j, hj, he⟩)
  have rows (t : Target) (ht : t ∈ f.targets) : ∀ q ∈ t.rows.query?, q.Told v :=
    fun q hq => hqueries q (List.mem_filterMap.2 ⟨t, ht, hq⟩)
  rw [FromClause.worth, Target.worths_eq_map, Join.worths_eq_map]
  obtain ⟨targets, joins⟩ := f
  obtain ⟨t, ts, rfl⟩ := List.exists_cons_of_length_eq_add_one ordered.targets
  obtain ⟨first, others⟩ := List.forall_mem_cons.1 rows
  rw [render.eq_def] at h
  dsimp only at h
  rw [Target.parts_eq_map, Join.parts_eq_map, List.map_cons, joinTargets] at h
  simp only [BEq.rfl, if_true, gives_bind, gives_pure] at h
  obtain ⟨p₁, _, ht, _, _, ⟨rfl, rfl⟩, q, _, hq, rfl, rfl⟩ := h
  have behind := tells_joinTargets v ordered ts 0 (Nat.succ.inj ordered.targets) others conditions hq
  rw [List.drop_zero] at behind
  exact (Target.told_part v first ht).append behind

omit [AddRightMono N] in
theorem told_renderOption {o : Option FromClause} {a : Option Phrase}
    (ordered : ∀ f ∈ o, f.Ordered) (hparts : ∀ e ∈ (o.map (·.parts)).getD [], e.Told v)
    (hqueries : ∀ q ∈ (o.map (·.queries)).getD [], q.Told v)
    (h : Gives (renderOption r o) used a used') :
    Tells v.marks r.dialect (worthOption v.toWeights o) (clauseOf ["FROM"] a) := by
  cases o with
  | none =>
    obtain ⟨rfl, -⟩ := gives_pure.1 h
    rw [worthOption]
    exact .nil
  | some f =>
    simp only [renderOption, gives_bind, gives_pure] at h
    obtain ⟨p, _, hp, rfl, rfl⟩ := h
    have told := told_render v (ordered f rfl) hparts hqueries hp
    obtain ⟨targets, joins⟩ := f
    rw [worthOption]
    exact v.tells_clause (by decide) told

end FromClause

omit [AddRightMono N] in
theorem Writing.tells_distinctHead {distinct : Bool} {e : Option Expr} {o : Option Phrase}
    (h : Option.Rel (fun e p => Tells v.marks r.dialect (e.worth v.toWeights) p) e o) :
    Tells v.marks r.dialect (Expr.worthOption v.toWeights e) (distinctHead distinct o) := by
  cases h with
  | none =>
    rw [Expr.worthOption]
    cases distinct
    · exact .nil
    · exact (v.tells_quiet (s := "DISTINCT") (by decide)).behind Tells.nil.blank
  | some hp =>
    rw [Expr.worthOption]
    have words : Tells v.marks r.dialect 0 (words ["DISTINCT", "ON"]) :=
      .words fun w hw => v.tells_quiet (by revert w; decide)
    exact (words.behind (v.tells_parens hp).blank).before Tells.nil.blank

omit [AddRightMono N] in
/-- A SELECT whose parts tell what they are worth. -/
theorem Select.told_render {s : Select} (hes : ∀ e ∈ (Query.select s).parts, e.Told v)
    (hqs : ∀ q ∈ (Query.select s).queries, q.Told v) (ordered : (Query.select s).JoinsOrdered) :
    (Query.select s).Told v := by
  obtain ⟨distinct, distinctOn, columns, source, condition, groupBy, having, orderBy, limit,
    offset⟩ := s
  intro used p used' h
  simp only [Query.render, Select.render, gives_bind, gives_pure, gives_lift] at h
  obtain ⟨_, _, -, on, _, hon, cols, _, hcols, src, _, hsrc, cond, _, hcond, group, _, hgroup,
    hav, _, hhav, order, _, horder, lim, _, hlim, off, _, hoff, rfl, rfl⟩ := h
  simp only [Query.parts, List.mem_append, or_imp, forall_and] at hes
  obtain ⟨⟨⟨⟨⟨⟨⟨⟨hOn, hColumns⟩, hSource⟩, hCondition⟩, hGroup⟩, hHaving⟩, hOrder⟩, hLimit⟩,
    hOffset⟩ := hes
  have select : Tells v.marks r.dialect 0 [.text "SELECT", .blank] :=
    (v.tells_quiet (s := "SELECT") (by decide)).behind Tells.nil.blank
  have hdistinct : Tells v.marks r.dialect (Expr.worthOption v.toWeights distinctOn)
      (distinctHead distinct on) := v.tells_distinctHead (Expr.told_renderOption v hOn hon)
  have hcolumns : Tells v.marks r.dialect (Column.worthAll v.toWeights columns) (commas cols) := by
    rw [Column.worthAll_eq_sum]
    exact v.tells_commas (Column.told_renderAll v hColumns hcols)
  have hfrom : Tells v.marks r.dialect (FromClause.worthOption v.toWeights source)
      (clauseOf ["FROM"] src) := FromClause.told_renderOption v ordered hSource hqs hsrc
  have hwhere : Tells v.marks r.dialect (Expr.worthOption v.toWeights condition)
      (clauseOf ["WHERE"] cond) :=
    v.tells_clauseOf (by decide) (Expr.told_renderOption v hCondition hcond)
  have hgroup : Tells v.marks r.dialect (Expr.worthAll v.toWeights groupBy)
      (listClause ["GROUP", "BY"] group) := by
    rw [Expr.worthAll_eq_sum]
    exact v.tells_listClause (by decide) (Expr.told_renderAll v hGroup hgroup)
  have hhaving : Tells v.marks r.dialect (Expr.worthOption v.toWeights having)
      (clauseOf ["HAVING"] hav) :=
    v.tells_clauseOf (by decide) (Expr.told_renderOption v hHaving hhav)
  have horder : Tells v.marks r.dialect (OrderItem.worthAll v.toWeights orderBy)
      (listClause ["ORDER", "BY"] order) := by
    rw [OrderItem.worthAll_eq_sum]
    exact v.tells_listClause (by decide) (OrderItem.told_renderAll v hOrder horder)
  have hbounds := v.tells_bounds (Expr.told_renderOption v hLimit hlim)
    (Expr.told_renderOption v hOffset hoff)
  rw [Query.worth, Select.worth]
  exact ((((((select.behind hdistinct).append hcolumns).append hfrom).append hwhere).append
    hgroup).append hhaving).append horder |>.append hbounds

omit [AddRightMono N] in
theorem Query.told_renderBranches {op : SetOp} {n : Nat} {qs : List Query}
    (hqs : ∀ q ∈ qs, q.Told v) (h : Gives (Query.renderBranches r op n qs) used ps used') :
    v.TellsAll (Query.worth v.toWeights) qs ps := by
  induction qs generalizing used ps used' n with
  | nil =>
    obtain ⟨rfl, -⟩ := gives_pure.1 h
    exact .nil
  | cons q qs ih =>
    simp only [Query.renderBranches, gives_bind, gives_pure, gives_lift] at h
    obtain ⟨p, _, hp, b, _, ⟨hb, rfl⟩, bs, _, hbs, rfl, rfl⟩ := h
    have hp := hqs q List.mem_cons_self _ _ _ hp
    have hbranch : Tells v.marks r.dialect (q.worth v.toWeights) b := by
      unfold branch at hb
      split at hb
      · cases hb
        exact hp
      · split at hb
        · cases hb
          exact v.tells_parens hp
        · split at hb
          · cases hb
            exact hp
          · cases hb
    exact .cons hbranch (ih (fun x hx => hqs x (List.mem_cons_of_mem _ hx)) hbs)

omit [AddLeftMono N] [AddRightMono N] in
/-- The words of a set operator. -/
theorem Writing.tells_setOp (op : SetOp) : Tells v.marks r.dialect 0 [.text op.sql] := by
  have key {k : Keyword} (hk : k.IsOrdinary) (ws : List Word) :
      v.marks ws ≤ v.marks (.key k :: ws) := v.keep_keyword k hk _ ws rfl
  refine .quiet fun ws => ?_
  cases op
  case union => exact (spells_keyword r.dialect .UNION).words_eq ▸ key (by decide) ws
  case unionAll =>
    exact (spells_keywords r.dialect .UNION (spells_keyword _ .ALL)).words_eq ▸
      (key (k := .ALL) (by decide) ws).trans (key (by decide) _)
  case intersect => exact (spells_keyword r.dialect .INTERSECT).words_eq ▸ key (by decide) ws
  case intersectAll =>
    exact (spells_keywords r.dialect .INTERSECT (spells_keyword _ .ALL)).words_eq ▸
      (key (k := .ALL) (by decide) ws).trans (key (by decide) _)
  case except => exact (spells_keyword r.dialect .EXCEPT).words_eq ▸ key (by decide) ws
  case exceptAll =>
    exact (spells_keywords r.dialect .EXCEPT (spells_keyword _ .ALL)).words_eq ▸
      (key (k := .ALL) (by decide) ws).trans (key (by decide) _)

omit [AddRightMono N] in
/-- A compound whose parts tell what they are worth. -/
theorem Compound.told_render {c : Compound} (hes : ∀ e ∈ (Query.compound c).parts, e.Told v)
    (hqs : ∀ q ∈ (Query.compound c).queries, q.Told v) : (Query.compound c).Told v := by
  obtain ⟨op, branches, orderBy, limit, offset⟩ := c
  intro used p used' h
  simp only [Query.render, Compound.render, gives_bind, gives_pure, gives_lift] at h
  obtain ⟨_, _, -, bs, _, hbs, order, _, horder, lim, _, hlim, off, _, hoff, rfl, rfl⟩ := h
  simp only [Query.parts, List.mem_append, or_imp, forall_and] at hes
  obtain ⟨⟨hOrder, hLimit⟩, hOffset⟩ := hes
  have hbranches : Tells v.marks r.dialect (Query.worthAll v.toWeights branches)
      (Phrase.sepBy [.clause, .text op.sql, .clause] bs) := by
    rw [Query.worthAll_eq_sum]
    exact Tells.sepBy ((v.tells_setOp op).behind Tells.nil.clause).clause
      (Query.told_renderBranches v hqs hbs)
  have horder : Tells v.marks r.dialect (OrderItem.worthAll v.toWeights orderBy)
      (listClause ["ORDER", "BY"] order) := by
    rw [OrderItem.worthAll_eq_sum]
    exact v.tells_listClause (by decide) (OrderItem.told_renderAll v hOrder horder)
  have hbounds := v.tells_bounds (Expr.told_renderOption v hLimit hlim)
    (Expr.told_renderOption v hOffset hoff)
  rw [Query.worth, Compound.worth]
  exact (hbranches.append horder).append hbounds

theorem Expr.told_render {e : Expr} (hlex : e.Lexable r) (hes : ∀ x ∈ e.parts, x.Told v)
    (hqs : ∀ x ∈ e.parts, ∀ q ∈ x.queries, q.Told v) (hq : ∀ q ∈ e.queries, q.Told v) :
    e.Told v := by
  intro used p used' h
  cases e with
  | literal l =>
    obtain ⟨rfl, -⟩ := gives_pure.1 h
    rw [worth]
    exact v.tells_literal l
  | name i =>
    obtain ⟨rfl, -⟩ := gives_pure.1 h
    rw [worth]
    exact v.tells_names i.parts
  | param q =>
    simp only [Expr.render, RenderContext.param, gives_bind, gives_pure, gives_lift,
      gives_recorded] at h
    obtain ⟨_, _, _, text, _, ⟨htext, -⟩, _, _, _, rfl, -⟩ := h
    rw [worth]
    exact v.tells_param q _ text htext
  | call function distinct args =>
    exact told_call v hes (fun q hq => hqs _ hq q (by simp [queries])) _ _ _ h
  | operation op operands =>
    exact tells_operation v hlex hes (fun q hq => hqs _ hq q (by simp [queries]))
      (gives_operation.1 h).2
  | subquery q =>
    simp only [Expr.render, gives_bind, gives_pure] at h
    obtain ⟨p, _, hp, rfl, rfl⟩ := h
    rw [worth]
    exact v.tells_parens (hq q (by simp [queries]) _ _ _ hp)
  | cases base arms otherwise =>
    simp only [parts, List.mem_append, List.mem_flatMap, or_imp, forall_and] at hes
    obtain ⟨⟨hbase, harms⟩, hotherwise⟩ := hes
    refine told_cases v hbase (fun arm harm => ?_) hotherwise _ _ _ h
    exact ⟨harms _ ⟨arm, harm, by simp⟩, harms _ ⟨arm, harm, by simp⟩⟩
  | cast e type => exact told_cast v (hes e (by simp [parts])) _ _ _ h
  | wildcard table =>
    cases table with
    | none =>
      obtain ⟨rfl, -⟩ := gives_pure.1 h
      rw [worth]
      exact v.tells_sign spells_star.words_eq (by decide) (by decide)
    | some table =>
      obtain ⟨rfl, -⟩ := gives_pure.1 h
      rw [worth]
      exact v.tells_wildcard table

end Parts

variable [AddLeftMono N] [AddRightMono N]

/-- Whatever is written of expressions and queries tells what they are worth, if the dialect has
their operators and their joins stand in order. -/
theorem told_render :
    (∀ e : Expr, e.Everywhere (Expr.Lexable r) (fun _ => True) → e.Ordered → e.Told v) ∧
      ∀ q : Query, q.Everywhere (Expr.Lexable r) (fun _ => True) → q.Ordered → q.Told v := by
  have h : (∀ e : Expr, e.Everywhere (Expr.Lexable r) (fun _ => True) → e.Ordered →
        e.Told v ∧ ∀ q ∈ e.queries, q.Told v) ∧
      ∀ q : Query, q.Everywhere (Expr.Lexable r) (fun _ => True) → q.Ordered → q.Told v := by
    refine tree_induction (fun e hes hqs he ho => ?_) fun q hes hqs hq ho => ?_
    · have hes x (hx : x ∈ e.parts) := hes x hx (he.parts x hx) (ho.parts x hx)
      have hqs q (hq : q ∈ e.queries) := hqs q hq (he.queries q hq) (ho.queries q hq)
      exact ⟨Expr.told_render v he.here (fun x hx => (hes x hx).1) (fun x hx => (hes x hx).2) hqs,
        hqs⟩
    · have hes x (hx : x ∈ q.parts) := (hes x hx (hq.parts x hx) (ho.parts x hx)).1
      have hqs q' (hq' : q' ∈ q.queries) := hqs q' hq' (hq.queries q' hq') (ho.queries q' hq')
      cases q with
      | select s => exact Select.told_render v hes hqs ho.here
      | compound c => exact Compound.told_render v hes hqs
  exact ⟨fun e he ho => (h.1 e he ho).1, h.2⟩

end BoundSql
