import BoundSql.Proofs.RoundTrip.Operation
import BoundSql.Proofs.Tree.Splice

/-!
# Plain expressions are read back

Writing a plain expression succeeds, and its text is read as `Expr.regrouped` says.
-/

namespace BoundSql

open Text Token Parse Grammar Phrase Render RenderContext

section Assembly

variable {r : RenderContext} {used used' : List String} {e : Expr} {p : Phrase} {op : Operator}

namespace Operator

/-- An operator between its operands has at least two, and one that does not flatten has two. -/
theorem isBetween_of_accepts {n : Nat} (h : op.acceptsOperands (n + 2))
    (hlist : op.shape ≠ .membership) (hrange : op.shape = .range → n ≠ 1) :
    op.IsBetween ∧ (op.flattens = false → n = 0) := by
  cases op <;> simp_all [acceptsOperands, arity, shape, IsBetween, flattens]

/-- The standard dialect reads the operators that it has as they are written. -/
theorem readIn_of_check (hr : r.dialect = .standard) (h : r.checkOperator op = .ok ()) :
    op.ReadIn r.dialect := by
  rw [hr]
  refine ⟨fun hregexp => ?_, fun _ => rfl⟩
  unfold checkOperator at h
  rw [hr] at h
  split at h
  · cases h
  · rw [hregexp] at h
    cases h

end Operator

theorem Expr.readBack_renderOperands {es : List Expr} {qs : List Phrase}
    (hes : ∀ e ∈ es, e.WrittenReadBack r) (h : Gives (Expr.renderOperands r op es) used qs used') :
    List.Forall₂ (OperandBack r.dialect op) es qs := by
  rw [renderOperands_eq_mapM] at h
  refine forall₂_of_gives_mapM (fun e he used p used' given => ?_) h
  obtain ⟨q, hq, rfl⟩ := gives_bind_pure.1 given
  exact ⟨q, rfl, hes e he _ _ _ hq⟩

/-- An operation is read back if its operands are and none of them is a query. -/
theorem readBack_operation {operands : List Expr} (hread : op.ReadIn r.dialect)
    (haccepts : op.acceptsOperands operands.length) (hquery : ∀ q, .subquery q ∉ operands)
    (hes : ∀ e ∈ operands, e.WrittenReadBack r) (hsteady : ∀ e ∈ operands, e.Steady)
    (hout : (Expr.operation op operands).Steady)
    (h : Expr.OperationGives r op used used' operands p) :
    ReadBack r.dialect (.operation op operands) p := by
  cases h with
  | prefixWord hshape he =>
    obtain rfl : op = .not := by cases op <;> first | rfl | cases hshape
    exact readBack_not (hes _ (by simp) _ _ _ he) hread
  | prefixSign hshape he =>
    obtain rfl := Operator.eq_bitNot_of_shape hshape
    exact readBack_bitNot (hes _ (by simp) _ _ _ he) hread
  | negation hshape he =>
    obtain rfl : op = .minus := by cases op <;> first | rfl | cases hshape
    exact readBack_negation (hes _ (by simp) _ _ _ he)
  | postfixWords hshape he =>
    have hop : op = .isNull ∨ op = .isNotNull := by cases op <;> first | (cases hshape; done) | simp
    exact readBack_nullTest hop (hes _ (by simp) _ _ _ he) hread
  | @membershipQuery e q => exact absurd (List.mem_cons_of_mem e List.mem_cons_self) (hquery q)
  | @membershipList e list p ps more hshape hlist he hps =>
    have hop : op = .isIn ∨ op = .notIn := by cases op <;> first | (cases hshape; done) | simp
    have hne : list ≠ [] := by
      rintro rfl
      rcases hop with rfl | rfl <;> cases haccepts
    have hlist := Expr.readBack_renderAll (fun x hx => hes x (List.mem_cons_of_mem _ hx)) hps
    exact readBack_membership hop (hes e (by simp) _ _ _ he) hread hlist hne
  | range hshape he hlow hhigh =>
    obtain rfl : op = .between := by cases op <;> first | rfl | cases hshape
    exact readBack_range (hes _ (by simp) _ _ _ he) hread (hes _ (by simp) _ _ _ hlow)
      (hes _ (by simp) _ _ _ hhigh)
  | @chain e e₁ es p p₁ ps more more₁ hlist hrange he hsecond hothers =>
    obtain ⟨hbetween, hcount⟩ := Operator.isBetween_of_accepts haccepts hlist fun hshape hlen => by
      obtain ⟨e₂, rfl⟩ := List.length_eq_one_iff.1 hlen
      exact hrange hshape e₂ rfl
    have hys : List.Forall₂ (OperandBack r.dialect op) (e₁ :: es)
        (e₁.asOperand op true p₁ :: ps) := by
      refine .cons ⟨p₁, rfl, hes e₁ (by simp) _ _ _ hsecond⟩ (Expr.readBack_renderOperands ?_ hothers)
      exact fun x hx => hes x (by simp [hx])
    exact readBack_chain hread hbetween (fun hflat => List.length_eq_zero_iff.1 (hcount hflat))
      (hes e (by simp) _ _ _ he) hys hout hsteady

/-- Writing the expression succeeds and records no name. -/
def Expr.Writable (r : RenderContext) (e : Expr) : Prop :=
  ∀ used, ∃ p, Gives (e.render r) used p used

namespace Expr

theorem writable_renderAll {es : List Expr} (hes : ∀ e ∈ es, e.Writable r) (used : List String) :
    ∃ ps, Gives (Expr.renderAll r es) used ps used := by
  rw [renderAll_eq_mapM]
  exact exists_gives_mapM hes used

theorem writable_renderOperands {es : List Expr} (hes : ∀ e ∈ es, e.Writable r)
    (used : List String) : ∃ ps, Gives (Expr.renderOperands r op es) used ps used := by
  rw [renderOperands_eq_mapM]
  refine exists_gives_mapM (fun e he used => ?_) used
  obtain ⟨p, hp⟩ := hes e he used
  exact ⟨_, gives_bind_pure.2 ⟨p, hp, rfl⟩⟩

theorem writable_renderOption {o : Option Expr} (ho : ∀ e ∈ o.toList, e.Writable r)
    (used : List String) : ∃ q, Gives (Expr.renderOption r o) used q used := by
  cases o with
  | none => exact ⟨none, gives_pure.2 ⟨rfl, rfl⟩⟩
  | some e =>
    obtain ⟨p, hp⟩ := ho e (by simp) used
    exact ⟨some p, gives_bind.2 ⟨p, _, hp, gives_pure.2 ⟨rfl, rfl⟩⟩⟩

theorem writable_renderArms {arms : List (Expr × Expr)}
    (harms : ∀ arm ∈ arms, arm.1.Writable r ∧ arm.2.Writable r) (used : List String) :
    ∃ p, Gives (Expr.renderArms r arms) used p used := by
  induction arms with
  | nil => exact ⟨[], gives_pure.2 ⟨rfl, rfl⟩⟩
  | cons arm arms ih =>
    obtain ⟨hcondition, hresult⟩ := harms arm List.mem_cons_self
    obtain ⟨pc, hc⟩ := hcondition used
    obtain ⟨pt, ht⟩ := hresult used
    obtain ⟨ps, hps⟩ := ih fun a ha => harms a (List.mem_cons_of_mem _ ha)
    exact ⟨_, gives_bind.2 ⟨pc, _, hc, gives_bind.2 ⟨pt, _, ht,
      gives_bind.2 ⟨ps, _, hps, gives_pure.2 ⟨rfl, rfl⟩⟩⟩⟩⟩

/-- An operation with as many operands as its operator accepts can be written if they can. -/
theorem writable_operation {operands : List Expr} (hcheck : r.checkOperator op = .ok ())
    (haccepts : op.acceptsOperands operands.length) (hquery : ∀ q, .subquery q ∉ operands)
    (hes : ∀ e ∈ operands, e.Writable r) : (operation op operands).Writable r := by
  intro used
  suffices h : ∃ p, OperationGives r op used used operands p by
    obtain ⟨p, hp⟩ := h
    exact ⟨p, gives_operation.2 ⟨hcheck, hp⟩⟩
  match operands with
  | [] => exact absurd (op.pos_of_acceptsOperands haccepts) (Nat.lt_irrefl 0)
  | [e] =>
    obtain ⟨p, hp⟩ := hes e (by simp) used
    cases op
    case not => exact ⟨_, .prefixWord rfl hp⟩
    case bitNot => exact ⟨_, .prefixSign rfl hp⟩
    case minus => exact ⟨_, .negation rfl hp⟩
    case isNull => exact ⟨_, .postfixWords rfl hp⟩
    case isNotNull => exact ⟨_, .postfixWords rfl hp⟩
    all_goals cases haccepts
  | e :: e₁ :: es =>
    obtain ⟨p, hp⟩ := hes e (by simp) used
    obtain ⟨p₁, hp₁⟩ := hes e₁ (by simp) used
    by_cases hlist : op.shape = .membership
    · obtain ⟨ps, hps⟩ := writable_renderAll (fun x hx => hes x (List.mem_cons_of_mem e hx)) used
      refine ⟨_, .membershipList hlist (fun q hq => hquery q ?_) hp hps⟩
      rw [hq]
      simp
    · by_cases hrange : op.shape = .range ∧ ∃ e₂, es = [e₂]
      · obtain ⟨hshape, e₂, rfl⟩ := hrange
        obtain ⟨p₂, hp₂⟩ := hes e₂ (by simp) used
        exact ⟨_, .range hshape hp hp₁ hp₂⟩
      · have hothers : ∀ x ∈ es, x.Writable r := fun x hx => hes x (by simp [hx])
        obtain ⟨ps, hps⟩ := writable_renderOperands hothers used
        exact ⟨_, .chain hlist (fun hshape e₂ he₂ => hrange ⟨hshape, e₂, he₂⟩) hp hp₁ hps⟩

end Expr

namespace Expr.Plain

theorem simple (h : e.Plain r) : e.Simple := by
  refine Everywhere.mono (fun x hx => ?_) (fun _ h => h) h
  cases x with
  | operation op operands => exact hx.2
  | _ => trivial

theorem steady (h : e.Plain r) : e.Steady := h.simple.steady

/-- No part of a plain expression is a query. -/
theorem subquery_notMem (h : e.Plain r) (q : Query) : .subquery q ∉ e.parts :=
  fun hmem => (h.parts _ hmem).here

/-- A plain expression takes over no text that the dialect lexes otherwise. -/
theorem lexable (hr : r.dialect = .standard) (h : e.Plain r) :
    e.Everywhere (Lexable r) (Query.Lexable r) := by
  refine Everywhere.mono (fun x hx => ?_) (fun _ hq => hq.elim) h
  cases x with
  | literal l =>
    obtain ⟨_, hspells, -⟩ := Literal.Plain.spells hx
    rw [Lexable, hr]
    exact hspells.whole
  | call function => exact .of_isPlainName (RenderContext.PlainName.isPlainName hx)
  | operation op => exact Operator.readIn_of_check hr hx.1
  | cast x type =>
    obtain ⟨_, hspells, -⟩ := DataType.Plain.spells hx
    rw [Lexable, hr]
    exact hspells.whole
  | param => exact hx.elim
  | name | subquery | cases | wildcard => trivial

/-- Writing a plain expression succeeds. -/
theorem writable (he : e.Plain r) : e.Writable r := by
  have h : (∀ e : Expr, e.Plain r → e.Writable r) ∧ ∀ _ : Query, True := by
    refine tree_induction (fun e ih _ he => ?_) fun _ _ _ => trivial
    have ih x (hx : x ∈ e.parts) := ih x hx (he.parts x hx)
    have hnode := he.here
    cases e with
    | literal => exact fun used => ⟨_, gives_pure.2 ⟨rfl, rfl⟩⟩
    | name => exact fun used => ⟨_, gives_pure.2 ⟨rfl, rfl⟩⟩
    | call function distinct args =>
      intro used
      obtain ⟨ps, hps⟩ := writable_renderAll ih used
      refine ⟨_, (gives_call fun q hq => ?_).2 ⟨ps, hps, rfl⟩⟩
      exact he.subquery_notMem q (by simp [parts, hq])
    | operation op operands => exact writable_operation hnode.1 hnode.2 he.subquery_notMem ih
    | cases base arms otherwise =>
      intro used
      simp only [parts, List.mem_append, List.mem_flatMap, or_imp, forall_and] at ih
      obtain ⟨⟨hbase, harms⟩, hotherwise⟩ := ih
      obtain ⟨pb, hpb⟩ := writable_renderOption hbase used
      obtain ⟨pa, hpa⟩ := writable_renderArms (fun arm harm =>
        ⟨harms _ ⟨arm, harm, by simp⟩, harms _ ⟨arm, harm, by simp⟩⟩) used
      obtain ⟨po, hpo⟩ := writable_renderOption hotherwise used
      exact ⟨_, gives_bind.2 ⟨pb, _, hpb, gives_bind.2 ⟨pa, _, hpa,
        gives_bind.2 ⟨po, _, hpo, gives_pure.2 ⟨rfl, rfl⟩⟩⟩⟩⟩
    | cast x type =>
      intro used
      obtain ⟨p, hp⟩ := ih x (by simp [parts]) used
      exact ⟨_, gives_bind.2 ⟨p, _, hp, gives_pure.2 ⟨rfl, rfl⟩⟩⟩
    | param | subquery | wildcard => exact hnode.elim
  exact h.1 e he

/-- Whatever is written of a plain expression is read back. -/
theorem readBack (hr : r.dialect = .standard) (he : e.Plain r) : e.WrittenReadBack r := by
  have h : (∀ e : Expr, e.Plain r → e.WrittenReadBack r) ∧ ∀ _ : Query, True := by
    refine tree_induction (fun e ih _ he => ?_) fun _ _ _ => trivial
    have ih x (hx : x ∈ e.parts) := ih x hx (he.parts x hx)
    have hnode := he.here
    cases e with
    | literal l =>
      intro used p used' h
      obtain ⟨rfl, -⟩ := gives_pure.1 h
      rw [hr]
      exact readBack_literal hnode
    | name i =>
      intro used p used' h
      obtain ⟨rfl, -⟩ := gives_pure.1 h
      exact readBack_name hnode.1 hnode.2
    | call function distinct args =>
      refine readBack_call hnode (fun q hq => ?_) ih
      exact he.subquery_notMem q (by simp [parts, hq])
    | operation op operands =>
      intro used p used' h
      have hsteady : ∀ x ∈ operands, x.Steady := fun x hx => steady (he.parts x hx)
      exact readBack_operation (Operator.readIn_of_check hr hnode.1) hnode.2 he.subquery_notMem ih
        hsteady he.steady (gives_operation.1 h).2
    | cases base arms otherwise =>
      simp only [parts, List.mem_append, List.mem_flatMap, or_imp, forall_and] at ih
      obtain ⟨⟨hbase, harms⟩, hotherwise⟩ := ih
      refine readBack_cases hnode hbase (fun arm harm => ?_) hotherwise
      exact ⟨harms _ ⟨arm, harm, by simp⟩, harms _ ⟨arm, harm, by simp⟩⟩
    | cast x type => exact readBack_cast hr hnode (ih x (by simp [parts]))
    | param | subquery | wildcard => exact hnode.elim
  exact h.1 e he

end Expr.Plain

/-- With levels of nesting enough the text is read to its end, as this expression. -/
def Expr.IsReadFrom (d : Dialect) (text : List Char) (e : Expr) : Prop :=
  ∃ levels, ∀ limit ≥ levels, ∃ c : Cursor,
    (expression limit limit 0).run (Cursor.ofTokens (Lexer.ofText d.lexicon text).tokens) =
      .ok (e, c) ∧ c.current.kind = .eof ∧ c.following = []

/-- A text is read in one way only. -/
theorem Expr.IsReadFrom.unique {d : Dialect} {text : List Char} {x y : Expr}
    (hx : x.IsReadFrom d text) (hy : y.IsReadFrom d text) : x = y := by
  obtain ⟨m, hx⟩ := hx
  obtain ⟨n, hy⟩ := hy
  obtain ⟨c, hx, -⟩ := hx (max m n) (Nat.le_max_left m n)
  obtain ⟨c', hy, -⟩ := hy (max m n) (Nat.le_max_right m n)
  rw [hx] at hy
  cases hy
  rfl

/-- What reads the words of a text up to its end reads the text. -/
theorem Expr.IsReadFrom.of_takes {d : Dialect} {text : List Char} {ws : List Word} {levels : Nat}
    (hwords : d.words text = ws)
    (h : ∀ limit ≥ levels, Takes (expression limit limit 0) ws e Word.eof) :
    e.IsReadFrom d text := by
  refine ⟨levels, fun limit hlimit => ?_⟩
  have hstart := Cursor.words_ofText d text
  rw [hwords] at hstart
  obtain ⟨c, hread, hend⟩ := h limit hlimit [] _ hstart
  injection hend with hcurrent hfollowing
  exact ⟨c, hread, congrArg Word.kind hcurrent, List.map_eq_nil_iff.1 hfollowing⟩

/-- Writing a plain expression succeeds, and its text is read to its end as `Expr.regrouped` says.
That is the expression with its chains spliced exactly if no group is lost. -/
theorem Expr.Plain.text_read (hr : r.dialect = .standard) (he : e.Plain r) (used : List String)
    (pretty : Bool) : ∃ p, Gives (e.render r) used p used ∧
      e.regrouped.IsReadFrom r.dialect (p.write pretty) ∧
        (e.spliced.IsReadFrom r.dialect (p.write pretty) ↔ e.KeepsGroups) := by
  obtain ⟨p, hp⟩ := he.writable used
  have hback := he.readBack hr used p used hp
  have htidy := (BoundSql.tidy_render r).1 e (he.lexable hr) used p used hp
  have hread : e.regrouped.IsReadFrom r.dialect (p.write pretty) := by
    have htakes : ∀ limit ≥ 2 * sizeOf e + 1, Takes (expression limit limit 0)
        (wordsIn r.dialect p) e.regrouped Word.eof :=
      fun _ hlimit => hback.takes_whole hlimit ⟨rfl, rfl⟩
    exact .of_takes (htidy.spells pretty).words_eq htakes
  refine ⟨p, hp, hread, ?_⟩
  rw [← he.simple.regrouped_eq_spliced_iff]
  refine ⟨fun h => hread.unique h, fun h => ?_⟩
  rwa [← h]

/-- Nothing is bound, and names are delimited where they must be. -/
def RenderContext.bare (d : Dialect) : RenderContext :=
  { dialect := d, settings := {}, params := .empty, values := .empty }

/-- `2 * (9 / 4 * 6)`, whose text goes without the parentheses. -/
def Expr.lostGroup : Expr :=
  .operation .star [.literal (.integer 2),
    .operation .star [.operation .div [.literal (.integer 9), .literal (.integer 4)],
      .literal (.integer 6)]]

theorem Expr.lostGroup_plain : lostGroup.Plain (.bare .standard) := by
  have hliteral {n : Int64} (hn : 0 ≤ n.toInt) :
      (literal (.integer n)).Plain (.bare .standard) := ⟨hn, by simp [parts], by simp [queries]⟩
  have hoperation {op : Operator} {x y : Expr} (hx : x.Plain (.bare .standard))
      (hy : y.Plain (.bare .standard)) (hop : (bare .standard).checkOperator op = .ok ())
      (haccepts : op.acceptsOperands 2) : (operation op [x, y]).Plain (.bare .standard) := by
    refine ⟨⟨hop, haccepts⟩, fun z hz => ?_, by simp [queries]⟩
    rcases List.mem_cons.1 hz with rfl | hz
    · exact hx
    · rw [List.mem_singleton.1 hz]
      exact hy
  have hdiv : (operation .div [literal (.integer 9), literal (.integer 4)]).Plain
      (.bare .standard) := hoperation (hliteral (by decide)) (hliteral (by decide)) rfl rfl
  exact hoperation (hliteral (by decide)) (hoperation hdiv (hliteral (by decide)) rfl rfl) rfl rfl

/-- The text of `2 * (9 / 4 * 6)` is read as `2 * 9 / 4 * 6`. -/
theorem Expr.Plain.text_read_lostGroup :
    ∃ p, Gives (Expr.lostGroup.render (.bare .standard)) [] p [] ∧
      ¬ Expr.lostGroup.spliced.IsReadFrom .standard (p.write false) := by
  obtain ⟨p, hp, -, hiff⟩ := Expr.Plain.text_read rfl Expr.lostGroup_plain [] false
  refine ⟨p, hp, fun hread => ?_⟩
  have hkeeps := (hiff.1 hread).here rfl _ List.mem_cons_self rfl
  cases hkeeps

end Assembly

end BoundSql
