import BoundSql.Proofs.Binding.Alike
import BoundSql.Proofs.Tree.Params

/-!
# Statements written in two ways

Between two contexts that differ only in the values, in the layout and in the way in which
parameters are written, writing takes the same course. If this is so for each parameter by itself,
it is for expressions and queries, `TwoWays.alike_render`, and for statements,
`TwoWays.parallel_body`: what is written differs in nothing but the parameters, and these are those
that are recorded. They stand in the text in the order in which they are recorded, unless LIMIT and
OFFSET change places. Both texts are given, or none: `Statement.write_of_parallel`.
-/

namespace BoundSql

open Phrase Render RenderContext

/-- Two ways of writing: values, a layout and a style each, and which texts may stand for a
parameter with the first and with the second. `InOrder` says that the order of the parameters is
to be followed. -/
structure TwoWays where
  context : RenderContext
  firstStyle : ParamStyle
  secondStyle : ParamStyle
  firstValues : Bindings
  secondValues : Bindings
  secondPretty : Bool := context.settings.pretty
  Hole : Entry → String → String → Prop
  opens : ∀ {e s₁ s₂} {p₁ p₂ : Phrase}, Hole e s₁ s₂ → p₁.opensWithMinus = p₂.opensWithMinus →
    Phrase.opensWithMinus (.text s₁ :: p₁) = Phrase.opensWithMinus (.text s₂ :: p₂)
  InOrder : Prop

namespace TwoWays

/-- The context of the first way. -/
def first (t : TwoWays) : RenderContext :=
  { t.context with
    values := t.firstValues
    settings := { t.context.settings with style := t.firstStyle } }

/-- The context of the second way. -/
def second (t : TwoWays) : RenderContext :=
  { t.context with
    values := t.secondValues
    settings := { t.context.settings with style := t.secondStyle, pretty := t.secondPretty } }

/-- The phrases are the same but for the texts of parameters, which are those recorded. -/
def Alike (t : TwoWays) (recorded : List Entry) (p₁ p₂ : Phrase) : Prop :=
  ∃ es, Phrase.Alike t.Hole es p₁ p₂ ∧ es.Perm recorded ∧ (t.InOrder → es = recorded)

/-- What is written of the parameter stands for it. -/
def ParamAlike (t : TwoWays) (p : ParamRef) : Prop :=
  Parallel t.Alike (t.first.param p) (t.second.param p)

variable {t : TwoWays} {l m : List Entry} {p₁ p₂ q₁ q₂ : Phrase} {ps₁ ps₂ : List Phrase}
  {o₁ o₂ : Option Phrase}

namespace Alike

theorem refl (p : Phrase) : t.Alike [] p p := ⟨[], .refl p, .nil, fun _ => rfl⟩

theorem of_eq (h : t.Alike l p₁ p₂) (hlm : l = m) : t.Alike m p₁ p₂ := hlm ▸ h

theorem cons (mark : Mark) (h : t.Alike l p₁ p₂) : t.Alike l (mark :: p₁) (mark :: p₂) := by
  obtain ⟨es, alike, order⟩ := h
  exact ⟨es, .cons mark alike, order⟩

theorem append (hp : t.Alike l p₁ p₂) (hq : t.Alike m q₁ q₂) :
    t.Alike (l ++ m) (p₁ ++ q₁) (p₂ ++ q₂) := by
  obtain ⟨es, alike, perm, order⟩ := hp
  obtain ⟨es', alike', perm', order'⟩ := hq
  exact ⟨es ++ es', alike.append alike', perm.append perm',
    fun h => by rw [order h, order' h]⟩

/-- A phrase in front of both. -/
theorem prepend (p : Phrase) (hq : t.Alike l q₁ q₂) : t.Alike l (p ++ q₁) (p ++ q₂) :=
  (refl p).append hq

/-- A phrase behind both. -/
theorem concat (hp : t.Alike l p₁ p₂) (q : Phrase) : t.Alike l (p₁ ++ q) (p₂ ++ q) :=
  (hp.append (refl q)).of_eq (List.append_nil l)

theorem parens (hp : t.Alike l p₁ p₂) : t.Alike l (parens p₁) (parens p₂) :=
  .cons _ (hp.concat _)

theorem clause (ws : List String) (hp : t.Alike l p₁ p₂) :
    t.Alike l (clause ws p₁) (clause ws p₂) :=
  .cons _ ((Alike.cons .blank hp).prepend _)

/-- Phrases that change places. -/
theorem swap (h : t.Alike (m ++ l) p₁ p₂) (order : t.InOrder → l = [] ∨ m = []) :
    t.Alike (l ++ m) p₁ p₂ := by
  obtain ⟨es, alike, perm, same⟩ := h
  refine ⟨es, alike, perm.trans List.perm_append_comm, fun inOrder => (same inOrder).trans ?_⟩
  rcases order inOrder with rfl | rfl
  · exact List.append_nil m
  · exact (List.append_nil l).symm

theorem opensWithMinus (h : t.Alike l p₁ p₂) : p₁.opensWithMinus = p₂.opensWithMinus := by
  obtain ⟨es, alike, -⟩ := h
  exact Phrase.Alike.opensWithMinus alike t.opens

end Alike

theorem alike_sepBy (glue : Phrase) (h : OneByOne t.Alike l ps₁ ps₂) :
    t.Alike l (sepBy glue ps₁) (sepBy glue ps₂) := by
  induction h with
  | nil => exact .refl _
  | cons first rest ih =>
    cases rest with
    | nil => exact first.of_eq (List.append_nil _).symm
    | cons _ _ => exact (first.concat glue).append ih

theorem alike_commas (h : OneByOne t.Alike l ps₁ ps₂) : t.Alike l (commas ps₁) (commas ps₂) :=
  alike_sepBy _ h

theorem alike_flatten (h : OneByOne t.Alike l ps₁ ps₂) : t.Alike l ps₁.flatten ps₂.flatten := by
  induction h with
  | nil => exact .refl _
  | cons first _ ih => exact first.append ih

theorem alike_listClause (ws : List String) (h : OneByOne t.Alike l ps₁ ps₂) :
    t.Alike l (listClause ws ps₁) (listClause ws ps₂) := by
  cases h with
  | nil => exact .refl _
  | cons first rest => exact (alike_commas (.cons first rest)).clause ws

theorem alike_after (front : Phrase) (h : IfAny t.Alike l o₁ o₂) :
    t.Alike l (after front o₁) (after front o₂) := by
  cases h with
  | none => exact .refl _
  | some h => exact h.prepend _

theorem alike_clauseOf (ws : List String) (h : IfAny t.Alike l o₁ o₂) :
    t.Alike l (clauseOf ws o₁) (clauseOf ws o₂) := by
  cases h with
  | none => exact .refl _
  | some h => exact h.clause ws

end TwoWays

open TwoWays

/-- What is written of the expression is the same but for parameters. -/
def Expr.WrittenAlike (t : TwoWays) (e : Expr) : Prop :=
  Parallel t.Alike (e.render t.first) (e.render t.second)

/-- What is written of the query is the same but for parameters. -/
def Query.WrittenAlike (t : TwoWays) (q : Query) : Prop :=
  Parallel t.Alike (q.render t.first) (q.render t.second)

/-- The expression behind LIMIT. -/
def Query.limit? : Query → Option Expr
  | select s => s.limit
  | compound c => c.limit

/-- The expression behind OFFSET. -/
def Query.offset? : Query → Option Expr
  | select s => s.offset
  | compound c => c.offset

/-- Should the order be followed, the bounds of the query stand in the order in which they are
written, or one of them records nothing. -/
def Query.BoundsInOrder (t : TwoWays) (q : Query) : Prop :=
  t.InOrder → t.context.dialect.limitOffset = true ∨
    Silent (Expr.renderOption t.first q.limit?) ∨ Silent (Expr.renderOption t.first q.offset?)

section Parts

variable {t : TwoWays} {l m : List Entry} {p₁ p₂ : Phrase} {op : Operator}

/-! ## Expressions -/

theorem Expr.parallel_renderAll {es : List Expr} (hes : ∀ e ∈ es, e.WrittenAlike t) :
    Parallel (OneByOne t.Alike) (Expr.renderAll t.first es) (Expr.renderAll t.second es) := by
  rw [renderAll_eq_mapM, renderAll_eq_mapM]
  exact parallel_mapM hes

theorem Expr.alike_asOperand (op : Operator) (right : Bool) (e : Expr) (h : t.Alike l p₁ p₂) :
    t.Alike l (e.asOperand op right p₁) (e.asOperand op right p₂) := by
  unfold asOperand
  split
  · exact h.parens
  · exact h

theorem Expr.parallel_renderOperands {es : List Expr} (hes : ∀ e ∈ es, e.WrittenAlike t) :
    Parallel (OneByOne t.Alike) (Expr.renderOperands t.first op es)
      (Expr.renderOperands t.second op es) := by
  rw [renderOperands_eq_mapM, renderOperands_eq_mapM]
  exact parallel_mapM fun e he => (hes e he).map fun l p₁ p₂ hp => alike_asOperand op true e hp

theorem Expr.parallel_renderOption {o : Option Expr} (ho : ∀ e ∈ o.toList, e.WrittenAlike t) :
    Parallel (IfAny t.Alike) (Expr.renderOption t.first o) (Expr.renderOption t.second o) := by
  cases o with
  | none => exact parallel_pure .none
  | some e => exact (ho e (by simp)).map fun l p₁ p₂ hp => .some hp

theorem Expr.parallel_renderArms {arms : List (Expr × Expr)}
    (harms : ∀ arm ∈ arms, arm.1.WrittenAlike t ∧ arm.2.WrittenAlike t) :
    Parallel t.Alike (Expr.renderArms t.first arms) (Expr.renderArms t.second arms) := by
  induction arms with
  | nil => exact parallel_pure (.refl _)
  | cons arm arms ih =>
    obtain ⟨w, x⟩ := arm
    obtain ⟨hw, hx⟩ := harms _ List.mem_cons_self
    refine hw.bind fun l p₁ p₂ hp => hx.bind fun m q₁ q₂ hq => ?_
    refine (ih fun a ha => harms a (List.mem_cons_of_mem _ ha)).map fun n s₁ s₂ hs => ?_
    exact ((((hp.prepend _).concat _).append hq).append hs).of_eq (List.append_assoc ..)

/-- Two minus signs in a row are avoided in both ways or in none. -/
theorem alike_negated (h : t.Alike l p₁ p₂) : t.Alike l (negated p₁) (negated p₂) := by
  unfold negated
  rw [h.opensWithMinus]
  split
  · exact .cons _ h.parens
  · exact .cons _ h

/-- The arguments of a call, between its parentheses. -/
theorem alike_arguments (function : String) (distinct : Bool) (h : t.Alike l p₁ p₂) :
    t.Alike l
      (.text function :: parens ((if distinct then [.text "DISTINCT", .blank] else []) ++ p₁))
      (.text function :: parens ((if distinct then [.text "DISTINCT", .blank] else []) ++ p₂)) :=
  .cons _ (h.prepend _).parens

theorem Expr.alike_call {function : String} {distinct : Bool} {args : List Expr}
    (hes : ∀ e ∈ args, e.WrittenAlike t) (hqs : ∀ q, .subquery q ∈ args → q.WrittenAlike t) :
    (call function distinct args).WrittenAlike t := by
  unfold WrittenAlike
  rw [Expr.render.eq_def, Expr.render.eq_def]
  dsimp only
  split
  · rename_i q
    have hq := hqs q (by simp)
    split
    · exact hq.map fun l p₁ p₂ hp => hp.parens.prepend _
    · exact hq.map fun l p₁ p₂ hp => alike_arguments _ _ hp.parens
  · exact (parallel_renderAll hes).map fun l ps₁ ps₂ hps => alike_arguments _ _ (alike_commas hps)

theorem Expr.alike_operation {operands : List Expr} (hes : ∀ e ∈ operands, e.WrittenAlike t)
    (hqs : ∀ q, .subquery q ∈ operands → q.WrittenAlike t) :
    (operation op operands).WrittenAlike t := by
  unfold WrittenAlike
  rw [Expr.render.eq_def, Expr.render.eq_def]
  dsimp only
  refine parallel_lift fun _ _ => ?_
  split
  case h_1 =>
    exact (hes _ (by simp)).map fun l p₁ p₂ hp => (alike_asOperand _ _ _ hp).prepend _
  case h_2 =>
    exact (hes _ (by simp)).map fun l p₁ p₂ hp => .cons _ (alike_asOperand _ _ _ hp)
  case h_3 =>
    exact (hes _ (by simp)).map fun l p₁ p₂ hp => alike_negated (alike_asOperand _ _ _ hp)
  case h_4 =>
    exact (hes _ (by simp)).map fun l p₁ p₂ hp => (alike_asOperand _ _ _ hp).concat _
  case h_5 e list _ =>
    refine (hes e List.mem_cons_self).bind fun l p₁ p₂ hp => ?_
    have hall {m q₁ q₂} (hq : t.Alike m q₁ q₂) :=
      ((alike_asOperand op false e hp).concat [.blank, op.mark, .blank]).append hq.parens
    split
    · exact (hqs _ (by simp)).map fun m q₁ q₂ hq => hall hq
    · have hlist := parallel_renderAll fun x hx => hes x (List.mem_cons_of_mem e hx)
      rw [← bind_pure_comp, ← bind_pure_comp]
      have hitems : Parallel t.Alike _ _ := hlist.map fun m ps₁ ps₂ hps => alike_commas hps
      exact hitems.map fun m q₁ q₂ hq => hall hq
  case h_6 e low high _ =>
    refine (hes e (by simp)).bind fun l p₁ p₂ hp => ?_
    refine (hes low (by simp)).bind fun m q₁ q₂ hq => ?_
    refine (hes high (by simp)).map fun n s₁ s₂ hs => ?_
    have hlow := ((alike_asOperand op false e hp).concat [.blank, op.mark, .blank]).append
      (alike_asOperand op true low hq)
    exact ((hlow.concat _).append (alike_asOperand op true high hs)).of_eq (List.append_assoc ..)
  case h_7 e e₁ es _ _ =>
    refine (hes e (by simp)).bind fun l p₁ p₂ hp => ?_
    refine (hes e₁ (by simp)).bind fun m q₁ q₂ hq => ?_
    refine (parallel_renderOperands fun x hx => hes x (by simp [hx])).map fun n ps₁ ps₂ hps => ?_
    exact alike_sepBy _ (.cons (alike_asOperand op false e hp)
      (.cons (alike_asOperand op true e₁ hq) hps))
  case h_8 => exact parallel_throw _

theorem Expr.alike_cases {base otherwise : Option Expr} {arms : List (Expr × Expr)}
    (hbase : ∀ e ∈ base.toList, e.WrittenAlike t)
    (harms : ∀ arm ∈ arms, arm.1.WrittenAlike t ∧ arm.2.WrittenAlike t)
    (hotherwise : ∀ e ∈ otherwise.toList, e.WrittenAlike t) :
    (cases base arms otherwise).WrittenAlike t := by
  unfold WrittenAlike
  rw [Expr.render.eq_def, Expr.render.eq_def]
  refine (parallel_renderOption hbase).bind fun l b₁ b₂ hb => ?_
  refine (parallel_renderArms harms).bind fun m q₁ q₂ hq => ?_
  refine (parallel_renderOption hotherwise).map fun n o₁ o₂ ho => ?_
  have hall := ((alike_after [.blank] hb).append hq).append
    (alike_after [.blank, .text "ELSE", .blank] ho)
  exact (Alike.cons _ (hall.concat _)).of_eq (List.append_assoc ..)

theorem Expr.alike_cast {e : Expr} {type : DataType} (he : e.WrittenAlike t) :
    (cast e type).WrittenAlike t := by
  unfold WrittenAlike
  rw [Expr.render.eq_def, Expr.render.eq_def]
  exact he.map fun l p₁ p₂ hp => .cons _ (hp.concat _).parens

theorem Expr.alike_render {e : Expr} (hparam : ∀ p ∈ e.param?, t.ParamAlike p)
    (hes : ∀ x ∈ e.parts, x.WrittenAlike t)
    (hqs : ∀ x ∈ e.parts, ∀ q ∈ x.queries, q.WrittenAlike t)
    (hq : ∀ q ∈ e.queries, q.WrittenAlike t) : e.WrittenAlike t := by
  cases e with
  | literal l => exact parallel_pure (.refl _)
  | name i => exact parallel_pure (.refl _)
  | param p => exact hparam p rfl
  | call function distinct args =>
    exact alike_call hes fun q hq => hqs _ hq q (by simp [queries])
  | operation op operands =>
    exact alike_operation hes fun q hq => hqs _ hq q (by simp [queries])
  | subquery q => exact (hq q (by simp [queries])).map fun l p₁ p₂ hp => hp.parens
  | cases base arms otherwise =>
    simp only [parts, List.mem_append, List.mem_flatMap, or_imp, forall_and] at hes
    obtain ⟨⟨hbase, harms⟩, hotherwise⟩ := hes
    refine alike_cases hbase (fun arm harm => ?_) hotherwise
    exact ⟨harms _ ⟨arm, harm, by simp⟩, harms _ ⟨arm, harm, by simp⟩⟩
  | cast e type => exact alike_cast (hes e (by simp [parts]))
  | wildcard table => cases table <;> exact parallel_pure (.refl _)

/-! ## Queries -/

theorem alike_labelled (h : t.Alike l p₁ p₂) (label : Option String) :
    t.Alike l (t.first.labelled p₁ label) (t.second.labelled p₂ label) := by
  cases label with
  | none => exact h
  | some label => exact h.concat _

theorem alike_labelledTarget (h : t.Alike l p₁ p₂) (label : Option String) :
    t.Alike l (t.first.labelledTarget p₁ label) (t.second.labelledTarget p₂ label) := by
  cases label with
  | none => exact h
  | some label =>
    change t.Alike l
      (if t.context.dialect == .oracle then _ else t.first.labelled p₁ (some label))
      (if t.context.dialect == .oracle then _ else t.second.labelled p₂ (some label))
    split
    · exact h.concat _
    · exact alike_labelled h (some label)

/-- The bounds are written in the order of the clauses of a dialect with LIMIT and OFFSET, else in
the opposite order. -/
theorem alike_bounds {l₁ l₂ o₁ o₂ : Option Phrase} (hl : IfAny t.Alike l l₁ l₂)
    (ho : IfAny t.Alike m o₁ o₂)
    (order : t.InOrder → t.context.dialect.limitOffset = true ∨ l = [] ∨ m = []) :
    t.Alike (l ++ m) (t.first.bounds l₁ o₁) (t.second.bounds l₂ o₂) := by
  change t.Alike (l ++ m) (t.context.bounds l₁ o₁) (t.context.bounds l₂ o₂)
  unfold bounds
  split
  · cases hl with
    | none =>
      cases ho with
      | none => exact .refl _
      | some ho => exact ho.clause _
    | some hl =>
      cases ho with
      | none => exact (hl.clause _).of_eq (List.append_nil l).symm
      | some ho => exact ((hl.clause _).concat _).append ho
  · rename_i behind
    refine Alike.swap (Alike.append ?_ ?_) fun inOrder => (order inOrder).resolve_left behind
    · cases ho with
      | none => exact .refl _
      | some ho => exact (ho.clause _).concat _
    · cases hl with
      | none => exact .refl _
      | some hl => exact (hl.clause _).concat _

theorem alike_sortKey (order : SortOrder) (collation : Option String) (h : t.Alike l p₁ p₂) :
    t.Alike l (sortKey p₁ order collation) (sortKey p₂ order collation) :=
  (h.concat _).concat _

theorem alike_distinctHead {o₁ o₂ : Option Phrase} (distinct : Bool)
    (h : IfAny t.Alike l o₁ o₂) :
    t.Alike l (distinctHead distinct o₁) (distinctHead distinct o₂) := by
  cases h with
  | none => exact .refl _
  | some h => exact ((Alike.cons .blank h.parens).prepend _).concat _

theorem Column.parallel_renderAll {cs : List Column}
    (hes : ∀ e ∈ cs.map (·.expr), e.WrittenAlike t) :
    Parallel (OneByOne t.Alike) (Column.renderAll t.first cs) (Column.renderAll t.second cs) := by
  rw [renderAll_eq_mapM, renderAll_eq_mapM]
  exact parallel_mapM fun c hc => Parallel.map (hes c.expr (List.mem_map_of_mem hc))
    fun l p₁ p₂ hp => alike_labelled hp c.label

theorem OrderItem.parallel_renderAll {os : List OrderItem}
    (hes : ∀ e ∈ os.map (·.expr), e.WrittenAlike t) :
    Parallel (OneByOne t.Alike) (OrderItem.renderAll t.first os)
      (OrderItem.renderAll t.second os) := by
  rw [renderAll_eq_mapM, renderAll_eq_mapM]
  exact parallel_mapM fun o ho => Parallel.map (hes o.expr (List.mem_map_of_mem ho))
    fun l p₁ p₂ hp => alike_sortKey o.order o.collation hp

/-- Joins that stand at the same place, are of one kind and have conditions that are alike. -/
structure JoinAlike (t : TwoWays) (j₁ j₂ : JoinParts) : Prop where
  position : j₁.position = j₂.position
  kind : j₁.kind = j₂.kind
  condition : Parallel t.Alike j₁.condition j₂.condition

/-- The first join at a place, if there is one. -/
theorem JoinAlike.find? {js₁ js₂ : List JoinParts} (h : List.Forall₂ (JoinAlike t) js₁ js₂)
    (k : Nat) :
    js₁.find? (·.position == k) = none ∧ js₂.find? (·.position == k) = none ∨
      ∃ j₁ j₂, js₁.find? (·.position == k) = some j₁ ∧ js₂.find? (·.position == k) = some j₂ ∧
        JoinAlike t j₁ j₂ := by
  induction h with
  | nil => exact .inl ⟨rfl, rfl⟩
  | @cons j₁ j₂ js₁ js₂ hj _ ih =>
    rw [List.find?_cons, List.find?_cons, ← hj.position]
    cases hk : j₁.position == k with
    | true => exact .inr ⟨j₁, j₂, rfl, rfl, hj⟩
    | false => exact ih

theorem parallel_joinTargets {js₁ js₂ : List JoinParts} {ts₁ ts₂ : List (Render Phrase)} {k : Nat}
    (hjs : List.Forall₂ (JoinAlike t) js₁ js₂) (hts : List.Forall₂ (Parallel t.Alike) ts₁ ts₂) :
    Parallel t.Alike (t.first.joinTargets js₁ k ts₁) (t.second.joinTargets js₂ k ts₂) := by
  induction hts generalizing k with
  | nil => exact parallel_pure (.refl _)
  | @cons _ _ ts₁ ts₂ hfirst _ ih =>
    refine hfirst.bind fun l p₁ p₂ hp => ?_
    -- The rest behind the target, with or without a join in front of it.
    have hrest {m : List Entry} {q₁ q₂ : Phrase} (hq : t.Alike m q₁ q₂) :
        Parallel (fun n => t.Alike (m ++ n))
          (do return q₁ ++ (← t.first.joinTargets js₁ (k + 1) ts₁))
          (do return q₂ ++ (← t.second.joinTargets js₂ (k + 1) ts₂)) :=
      ih.map fun n s₁ s₂ hs => hq.append hs
    cases k == 0 with
    | true =>
      simp only [if_true, pure_bind]
      exact hrest hp
    | false =>
      rcases JoinAlike.find? hjs k with ⟨h₁, h₂⟩ | ⟨j₁, j₂, h₁, h₂, hj⟩
      · simp only [h₁, h₂, Bool.false_eq_true, if_false, pure_bind]
        exact hrest (hp.prepend _)
      · simp only [h₁, h₂, Bool.false_eq_true, if_false, pure_bind, ← hj.kind]
        refine parallel_lift fun _ _ => hj.condition.bind fun m q₁ q₂ hq => ?_
        refine (hrest ((hp.clause _).append hq)).mono fun n _ _ h => ?_
        exact h.of_eq (List.append_assoc ..)

theorem Target.parallel_parts {targets : List Target}
    (hqs : ∀ q ∈ targets.filterMap (·.rows.query?), q.WrittenAlike t) :
    List.Forall₂ (Parallel t.Alike) (Target.parts t.first targets)
      (Target.parts t.second targets) := by
  induction targets with
  | nil => exact .nil
  | cons target ts ih =>
    obtain ⟨rows, label⟩ := target
    cases rows with
    | table i => exact .cons (parallel_pure (alike_labelledTarget (.refl _) label)) (ih hqs)
    | subquery q =>
      have hq : q.WrittenAlike t := hqs q (by simp [TableSource.query?])
      refine .cons ?_ (ih fun q hq => hqs q ?_)
      · exact hq.map fun l p₁ p₂ hp => alike_labelledTarget hp.parens label
      · rw [List.filterMap_cons]
        exact List.mem_cons_of_mem _ hq

theorem Join.parallel_parts {joins : List Join}
    (hes : ∀ e ∈ joins.filterMap (·.condition.expr?), e.WrittenAlike t) :
    List.Forall₂ (JoinAlike t) (Join.parts t.first joins) (Join.parts t.second joins) := by
  induction joins with
  | nil => exact .nil
  | cons j js ih =>
    obtain ⟨kind, position, condition⟩ := j
    cases condition with
    | none => exact .cons ⟨rfl, rfl, parallel_pure (.refl _)⟩ (ih hes)
    | predicate e =>
      have he : e.WrittenAlike t := hes e (by simp [JoinCondition.expr?])
      refine .cons ⟨rfl, rfl, ?_⟩ (ih fun e he => hes e ?_)
      · exact he.map fun l p₁ p₂ hp => hp.prepend _
      · rw [List.filterMap_cons]
        exact List.mem_cons_of_mem _ he
    | columns names => exact .cons ⟨rfl, rfl, parallel_pure (.refl _)⟩ (ih hes)

theorem FromClause.parallel_renderOption {o : Option FromClause}
    (hes : ∀ e ∈ (o.map (·.parts)).getD [], e.WrittenAlike t)
    (hqs : ∀ q ∈ (o.map (·.queries)).getD [], q.WrittenAlike t) :
    Parallel (IfAny t.Alike) (FromClause.renderOption t.first o)
      (FromClause.renderOption t.second o) := by
  cases o with
  | none => exact parallel_pure .none
  | some f =>
    obtain ⟨targets, joins⟩ := f
    have h := parallel_joinTargets (k := 0) (Join.parallel_parts hes) (Target.parallel_parts hqs)
    exact h.map fun l p₁ p₂ hp => .some hp

/-- A SELECT whose parts are written alike. -/
theorem Select.alike_render {s : Select} (order : (Query.select s).BoundsInOrder t)
    (hes : ∀ e ∈ (Query.select s).parts, e.WrittenAlike t)
    (hqs : ∀ q ∈ (Query.select s).queries, q.WrittenAlike t) :
    (Query.select s).WrittenAlike t := by
  obtain ⟨distinct, distinctOn, columns, source, condition, groupBy, having, orderBy, limit,
    offset⟩ := s
  simp only [Query.parts, List.mem_append, or_imp, forall_and] at hes
  obtain ⟨⟨⟨⟨⟨⟨⟨⟨hOn, hColumns⟩, hSource⟩, hCondition⟩, hGroup⟩, hHaving⟩, hOrder⟩, hLimit⟩,
    hOffset⟩ := hes
  unfold Query.WrittenAlike
  rw [Query.render, Query.render, Select.render, Select.render]
  refine parallel_lift fun _ _ => ?_
  refine (Expr.parallel_renderOption hOn).bind fun _ _ _ hon => ?_
  refine (Column.parallel_renderAll hColumns).bind fun _ _ _ hcolumns => ?_
  refine (FromClause.parallel_renderOption hSource hqs).bind fun _ _ _ hsource => ?_
  refine (Expr.parallel_renderOption hCondition).bind fun _ _ _ hcondition => ?_
  refine (Expr.parallel_renderAll hGroup).bind fun _ _ _ hgroup => ?_
  refine (Expr.parallel_renderOption hHaving).bind fun _ _ _ hhaving => ?_
  refine (OrderItem.parallel_renderAll hOrder).bind fun _ _ _ horder => ?_
  refine (Expr.parallel_renderOption hLimit).silent.bind fun _ _ _ hlimit => ?_
  refine (Expr.parallel_renderOption hOffset).silent.map fun _ _ _ hoffset => ?_
  have hhead := ((alike_distinctHead distinct hon).prepend [.text "SELECT", .blank]).append
    (alike_commas hcolumns)
  have hrows := ((hhead.append (alike_clauseOf ["FROM"] hsource)).append
    (alike_clauseOf ["WHERE"] hcondition)).append (alike_listClause ["GROUP", "BY"] hgroup)
  have htail := (hrows.append (alike_clauseOf ["HAVING"] hhaving)).append
    (alike_listClause ["ORDER", "BY"] horder)
  have hbounds := alike_bounds hlimit.1 hoffset.1 fun inOrder =>
    (order inOrder).imp_right (Or.imp hlimit.2 hoffset.2)
  exact (htail.append hbounds).of_eq (by simp only [List.append_assoc])

/-- A branch of a compound is refused in both ways, or written alike. -/
theorem alike_branch (op : SetOp) (k : Nat) (q : Query) (h : t.Alike l p₁ p₂) :
    (∃ e, t.first.branch op k q p₁ = .error e ∧ t.second.branch op k q p₂ = .error e) ∨
      ∃ b₁ b₂, t.first.branch op k q p₁ = .ok b₁ ∧ t.second.branch op k q p₂ = .ok b₂ ∧
        t.Alike l b₁ b₂ := by
  change (∃ e, t.context.branch op k q p₁ = .error e ∧ t.context.branch op k q p₂ = .error e) ∨
    ∃ b₁ b₂, t.context.branch op k q p₁ = .ok b₁ ∧ t.context.branch op k q p₂ = .ok b₂ ∧
      t.Alike l b₁ b₂
  unfold branch
  cases !q.needsParens op k with
  | true => exact .inr ⟨p₁, p₂, rfl, rfl, h⟩
  | false =>
    cases t.context.dialect.parenthesizedBranches with
    | true => exact .inr ⟨_, _, rfl, rfl, h.parens⟩
    | false =>
      cases k == 0 && !q.isBounded with
      | true => exact .inr ⟨p₁, p₂, rfl, rfl, h⟩
      | false => exact .inl ⟨_, rfl, rfl⟩

theorem Query.parallel_renderBranches {op : SetOp} {k : Nat} {qs : List Query}
    (hqs : ∀ q ∈ qs, q.WrittenAlike t) :
    Parallel (OneByOne t.Alike) (Query.renderBranches t.first op k qs)
      (Query.renderBranches t.second op k qs) := by
  induction qs generalizing k with
  | nil => exact parallel_pure .nil
  | cons q qs ih =>
    refine (hqs q List.mem_cons_self).bind fun l p₁ p₂ hp => ?_
    have hrest := ih (k := k + 1) fun x hx => hqs x (List.mem_cons_of_mem _ hx)
    change Parallel _ (liftM (t.first.branch op k q p₁) >>= _)
      (liftM (t.second.branch op k q p₂) >>= _)
    rcases alike_branch op k q hp with ⟨e, h₁, h₂⟩ | ⟨b₁, b₂, h₁, h₂, hb⟩
    · rw [h₁, h₂]
      exact parallel_throw e
    · rw [h₁, h₂]
      exact hrest.map fun m ps₁ ps₂ hps => .cons hb hps

/-- A compound whose parts are written alike. -/
theorem Compound.alike_render {c : Compound} (order : (Query.compound c).BoundsInOrder t)
    (hes : ∀ e ∈ (Query.compound c).parts, e.WrittenAlike t)
    (hqs : ∀ q ∈ (Query.compound c).queries, q.WrittenAlike t) :
    (Query.compound c).WrittenAlike t := by
  obtain ⟨op, branches, orderBy, limit, offset⟩ := c
  simp only [Query.parts, List.mem_append, or_imp, forall_and] at hes
  obtain ⟨⟨hOrder, hLimit⟩, hOffset⟩ := hes
  unfold Query.WrittenAlike
  rw [Query.render, Query.render, Compound.render, Compound.render]
  refine parallel_lift fun _ _ => ?_
  refine (Query.parallel_renderBranches hqs).bind fun _ _ _ hbranches => ?_
  refine (OrderItem.parallel_renderAll hOrder).bind fun _ _ _ horder => ?_
  refine (Expr.parallel_renderOption hLimit).silent.bind fun _ _ _ hlimit => ?_
  refine (Expr.parallel_renderOption hOffset).silent.map fun _ _ _ hoffset => ?_
  have hrows := (alike_sepBy [.clause, .text op.sql, .clause] hbranches).append
    (alike_listClause ["ORDER", "BY"] horder)
  have hbounds := alike_bounds hlimit.1 hoffset.1 fun inOrder =>
    (order inOrder).imp_right (Or.imp hlimit.2 hoffset.2)
  exact (hrows.append hbounds).of_eq (by simp only [List.append_assoc])

end Parts

/-- What is written of expressions and queries is the same in both ways but for the parameters. -/
theorem TwoWays.alike_render (t : TwoWays) :
    (∀ e : Expr, e.Everywhere (fun x => ∀ p ∈ x.param?, t.ParamAlike p) (Query.BoundsInOrder t) →
      e.WrittenAlike t) ∧
    ∀ q : Query, q.Everywhere (fun x => ∀ p ∈ x.param?, t.ParamAlike p) (Query.BoundsInOrder t) →
      q.WrittenAlike t := by
  have h : (∀ e : Expr, e.Everywhere (fun x => ∀ p ∈ x.param?, t.ParamAlike p)
        (Query.BoundsInOrder t) → e.WrittenAlike t ∧ ∀ q ∈ e.queries, q.WrittenAlike t) ∧
      ∀ q : Query, q.Everywhere (fun x => ∀ p ∈ x.param?, t.ParamAlike p)
        (Query.BoundsInOrder t) → q.WrittenAlike t := by
    refine tree_induction (fun e hes hqs he => ?_) fun q hes hqs hq => ?_
    · have hes x (hx : x ∈ e.parts) := hes x hx (he.parts x hx)
      have hqs q (hq : q ∈ e.queries) := hqs q hq (he.queries q hq)
      have he := Expr.alike_render he.here (fun x hx => (hes x hx).1) (fun x hx => (hes x hx).2) hqs
      exact ⟨he, hqs⟩
    · have hes x (hx : x ∈ q.parts) := (hes x hx (hq.parts x hx)).1
      have hqs q' (hq' : q' ∈ q.queries) := hqs q' hq' (hq.queries q' hq')
      cases q with
      | select s => exact Select.alike_render hq.here hes hqs
      | compound c => exact Compound.alike_render hq.here hes hqs
  exact ⟨fun e he => (h.1 e he).1, h.2⟩

/-! ## Statements -/

namespace TwoWays

variable {t : TwoWays}

theorem parallel_insertSource {s : InsertSource} (hparts : ∀ e ∈ s.parts, e.WrittenAlike t)
    (hqueries : ∀ q ∈ s.queries, q.WrittenAlike t) :
    Parallel t.Alike (t.first.insertSource s) (t.second.insertSource s) := by
  cases s with
  | values rows =>
    have hrow (row : List Expr) (h : row ∈ rows) : Parallel t.Alike
        (do return parens (commas (← Expr.renderAll t.first row)))
        (do return parens (commas (← Expr.renderAll t.second row))) := by
      refine (Expr.parallel_renderAll fun e he => ?_).map fun l ps₁ ps₂ hps =>
        (alike_commas hps).parens
      exact hparts e (List.mem_flatten.2 ⟨row, h, he⟩)
    exact (parallel_mapM hrow).map fun l ps₁ ps₂ hps => (alike_commas hps).prepend _
  | query q => exact hqueries q (List.mem_singleton_self q)
  | defaultValues => exact parallel_pure (.refl _)

theorem parallel_condition {o : Option Expr} (h : ∀ e ∈ o.toList, e.WrittenAlike t) :
    Parallel t.Alike (t.first.condition o) (t.second.condition o) := by
  cases o with
  | none => exact parallel_pure (.refl _)
  | some e => exact Parallel.map (h e (List.mem_singleton_self e)) fun l p₁ p₂ hp => hp.clause _

/-- What is written of a statement is the same in both ways but for the parameters. -/
theorem parallel_body {b : Body} (hparams : ∀ p ∈ b.params, t.ParamAlike p)
    (order : b.EveryQuery (Query.BoundsInOrder t)) :
    Parallel t.Alike (t.first.body b) (t.second.body b) := by
  simp only [b.params_perm.mem_iff, List.forall_mem_append, List.forall_mem_flatMap] at hparams
  obtain ⟨⟨inParts, inQueries⟩, inFragments⟩ := hparams
  have hparts (e : Expr) (he : e ∈ b.parts) : e.WrittenAlike t :=
    t.alike_render.1 e (everywhere_params.1 e (inParts e he) (order.1 e he))
  have hqueries (q : Query) (hq : q ∈ b.queries) : q.WrittenAlike t :=
    t.alike_render.2 q (everywhere_params.2 q (inQueries q hq) (order.2 q hq))
  cases b with
  | select s => exact hqueries (.select s) (List.mem_singleton_self _)
  | compound c => exact hqueries (.compound c) (List.mem_singleton_self _)
  | insert i =>
    exact (parallel_insertSource hparts hqueries).map fun l p₁ p₂ hp =>
      (Alike.cons .clause hp).prepend _
  | update u =>
    simp only [Body.parts, List.forall_mem_append] at hparts
    refine parallel_lift fun ws _ => ?_
    refine (parallel_mapM (R := t.Alike) fun a ha => ?_).bind fun l ps₁ ps₂ hps => ?_
    · have value := hparts.1 a.value (List.mem_map.2 ⟨a, ha, rfl⟩)
      exact Parallel.map value fun l p₁ p₂ hp => hp.prepend _
    · refine (parallel_condition hparts.2).map fun m p₁ p₂ hp => ?_
      exact (((alike_commas hps).clause _).prepend _).append hp
  | delete d =>
    exact (parallel_condition hparts).map fun l p₁ p₂ hp => hp.prepend _
  | transaction c =>
    have same := parallel_lift (S := t.Alike) (c := t.first.transaction c)
      fun p _ => parallel_pure (.refl p)
    rwa [bind_pure] at same
  | verbatim parts =>
    refine (parallel_mapM (R := t.Alike) fun part hpart => ?_).map fun l ps₁ ps₂ hps => ?_
    · cases part with
      | text s => exact parallel_pure (.refl _)
      | param p => exact inFragments p (List.mem_filterMap.2 ⟨_, hpart, rfl⟩)
    · exact alike_flatten hps

end TwoWays

/-! ## Expressions without parameters -/

/-- Writing an expression without parameters records nothing. -/
theorem Expr.silent_render {r : RenderContext} {e : Expr} (h : e.params = []) :
    Silent (e.render r) := by
  -- Against itself the writing may differ nowhere, so that there is no entry to stand there.
  let same : TwoWays :=
    { context := r
      firstStyle := r.settings.style
      secondStyle := r.settings.style
      firstValues := r.values
      secondValues := r.values
      Hole := fun _ _ _ => False
      opens := False.elim
      InOrder := False }
  have params : ∀ p ∈ e.params, same.ParamAlike p := by simp [h]
  have everywhere := (everywhere_of_forall (P := fun _ => True) (Q := Query.BoundsInOrder same)
    (fun _ => trivial) fun _ => False.elim).1 e
  have alike := same.alike_render.1 e (everywhere_params.1 e params everywhere)
  intro used p used' gives
  obtain ⟨_, ps, rfl, -, es, holes, perm, -⟩ := Parallel.of_gives alike gives
  rw [holes.of_no_hole] at perm
  rw [Entry.ofParams_eq_nil_iff.1 (List.nil_perm.1 perm), List.map_nil, List.append_nil]

theorem Expr.silent_renderOption {r : RenderContext} {o : Option Expr}
    (h : ∀ e ∈ o, e.params = []) : Silent (Expr.renderOption r o) := by
  intro used p used' gives
  cases o with
  | none => exact (gives_pure.1 gives).2
  | some e =>
    obtain ⟨p, more, written, gives⟩ := gives_bind.1 gives
    rw [(gives_pure.1 gives).2]
    exact silent_render (h e rfl) used p more written

/-! ## Texts -/

/-- Where a statement is written in parallel with two stores of values and in two settings, it is
refused with the same error, or both write a text. The same parameters are reported. -/
theorem Statement.write_of_parallel {st : Statement} {values₁ values₂ : Bindings}
    {settings₁ settings₂ : RenderSettings} {d : Dialect} {R : List Entry → Phrase → Phrase → Prop}
    {r₁ r₂ : RenderContext} (h : Parallel R (r₁.body st.body) (r₂.body st.body))
    (first : r₁ = { dialect := d, settings := settings₁, params := st.params, values := values₁ })
    (second : r₂ = { dialect := d, settings := settings₂, params := st.params, values := values₂ }) :
    (∃ e used, st.write values₁ settings₁ d = (.error e, used) ∧
      st.write values₂ settings₂ d = (.error e, used)) ∨
    ∃ (p₁ p₂ : Phrase) (ps : List ParamRef) (used : List String),
      used = ps.map (·.key.display) ∧
      Gives (r₁.body st.body) [] p₁ used ∧ Gives (r₂.body st.body) [] p₂ used ∧
      st.write values₁ settings₁ d = (.ok (String.ofList (p₁.write settings₁.pretty)), used) ∧
      st.write values₂ settings₂ d = (.ok (String.ofList (p₂.write settings₂.pretty)), used) ∧
      R (Entry.ofParams [] ps) p₁ p₂ := by
  subst first second
  rcases h [] with ⟨e, used, failed₁, failed₂⟩ | ⟨p₁, p₂, ps, given₁, given₂, related⟩
  · refine .inl ⟨e, used, ?_, ?_⟩
    · rw [write, start, failed₁]
      rfl
    · rw [write, start, failed₂]
      rfl
  · refine .inr ⟨p₁, p₂, ps, _, rfl, given₁, given₂, ?_, ?_, related⟩
    · rw [write, start, given₁]
      rfl
    · rw [write, start, given₂]
      rfl

end BoundSql
