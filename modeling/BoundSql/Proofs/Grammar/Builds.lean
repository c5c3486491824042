import BoundSql.Proofs.Grammar.Sources
import BoundSql.Proofs.Tree.Formed

/-!
# What the grammar builds of deeper trees

Each rule of the grammar builds a tree of trees that are read one level deeper. `Builds T P P' Q Q'`
says of the ways in which trees are built that what is built of expressions with `P` and queries
with `Q` has `P'` and `Q'`. If each level leads to the next in this way, so does reading tokens:
`Body.builtOf_ofTokens`.
-/

namespace BoundSql

/-- An infix form of two operands is that of an operator that accepts two. -/
theorem Infix.acceptsOperands_of_ofToken? {k : TokenKind} {op : Operator}
    (h : Infix.ofToken? k = some (.binary op)) : op.acceptsOperands 2 = true := by
  cases k with
  | keyword k =>
    change Infix.ofKeyword? k = _ at h
    unfold Infix.ofKeyword? at h
    split at h
    all_goals cases h
    all_goals rfl
  | punct p =>
    change Infix.ofPunct? p = _ at h
    unfold Infix.ofPunct? at h
    split at h
    all_goals cases h
    all_goals rfl
  | _ => cases h

/-- The infix forms that an infix NOT or the NOT behind IS is put around. -/
def Expr.isTest : Expr → Bool
  | operation .is _ | operation .between _ | operation .similar _ => true
  | _ => false

/-- A FROM is built of expressions with `P` and queries with `Q`. -/
structure FromClause.BuiltOf (P : Expr → Prop) (Q : Query → Prop) (f : FromClause) : Prop where
  here : f.FormedHere
  parts : ∀ e ∈ f.parts, P e
  queries : ∀ q ∈ f.queries, Q q

/-- A statement is built of expressions with `P` and queries with `Q`, and an UPDATE of some
assignment. -/
structure Body.BuiltOf (P : Expr → Prop) (Q : Query → Prop) (b : Body) : Prop where
  parts : ∀ e ∈ b.parts, P e
  queries : ∀ q ∈ b.queries, Q q
  assignments : ∀ u, b = .update u → u.assignments ≠ []

namespace Grammar

open Parse

/-- The expressions in bounding clauses. -/
def Bounds.parts (b : Bounds) : List Expr :=
  b.orderBy.map (·.expr) ++ b.limit.toList ++ b.offset.toList

theorem parts_withBounds {P : Expr → Prop} {b : Bounds} {q : Query} (hq : ∀ e ∈ q.parts, P e)
    (hb : ∀ e ∈ b.parts, P e) : ∀ e ∈ (withBounds b q).parts, P e := by
  cases q with
  | select s =>
    simp only [withBounds, Query.parts, Bounds.parts, List.forall_mem_append] at hq hb ⊢
    exact ⟨⟨⟨hq.1.1.1, hb.1.1⟩, hb.1.2⟩, hb.2⟩
  | compound c => exact hb

theorem queries_withBounds (b : Bounds) (q : Query) : (withBounds b q).queries = q.queries := by
  cases q <;> rfl

theorem formedHere_withBounds {b : Bounds} {q : Query} :
    (withBounds b q).FormedHere ↔ q.FormedHere := by
  cases q <;> exact Iff.rfl

/-- What is built of expressions with `P` and queries with `Q` has `P'` and `Q'`. The operand in
front of an infix form, and a query that further branches or bounding clauses follow, stand on the
same level. -/
structure Builds (T : Token → Prop) (P P' : Expr → Prop) (Q Q' : Query → Prop) : Prop where
  literal (l : Literal) : P' (.literal l)
  name (i : Identifier) : P' (.name i)
  param (p : ParamRef) : P' (.param p)
  wildcard (table : Option String) : P' (.wildcard table)
  deeper {e : Expr} : P e → P' e
  call {function : String} {distinct : Bool} {es : List Expr} : Called T function →
    (∀ e ∈ es, P e) → P' (.call function distinct es)
  existence {q : Query} : Q q → P' (.call "EXISTS" false [.subquery q])
  subquery {q : Query} : Q q → P' (.subquery q)
  cast {e : Expr} {type : DataType} : type.Typed T → P' e → P' (.cast e type)
  cases {base otherwise : Option Expr} {arms : List (Expr × Expr)} : arms ≠ [] →
    (∀ e ∈ base, P e) → (∀ arm ∈ arms, P arm.1 ∧ P arm.2) → (∀ e ∈ otherwise, P e) →
    P' (.cases base arms otherwise)
  signed {op : Operator} {e : Expr} : op = .not ∨ op = .minus ∨ op = .bitNot → op.Spelled T →
    P e → P' (.operation op [e])
  nullTest {op : Operator} {lhs : Expr} : op = .isNull ∨ op = .isNotNull → P' lhs →
    P' (.operation op [lhs])
  negated {e : Expr} : e.isTest = true → P' e → P' (.operation .not [e])
  operation {op : Operator} {lhs : Expr} {es : List Expr} : es ≠ [] →
    op.acceptsOperands (es.length + 1) = true → op.Spelled T → P' lhs → (∀ e ∈ es, P e) →
    P' (.operation op (lhs :: es))
  membership {op : Operator} {lhs : Expr} {q : Query} : op = .isIn ∨ op = .notIn → P' lhs → Q q →
    P' (.operation op [lhs, .subquery q])
  chained {op : Operator} {es : List Expr} {e : Expr} : op.flattens = true →
    P' (.operation op es) → P e → P' (.operation op (es ++ [e]))
  deeperQuery {q : Query} : Q q → Q' q
  select {s : Select} : (Query.select s).FormedHere → (∀ e ∈ (Query.select s).parts, P e) →
    (∀ q ∈ (Query.select s).queries, Q q) → Q' (.select s)
  compound {op : SetOp} {qs : List Query} : 2 ≤ qs.length → (∀ q ∈ qs, Q' q) →
    Q' (.compound (.ofBranches op qs))
  bounded {q : Query} {b : Bounds} : Q' q → (∀ e ∈ b.parts, P e) → Q' (withBounds b q)

/-- What is read one level deeper has `P` and `Q`. -/
structure Nested.Gives (T : Token → Prop) (P : Expr → Prop) (Q : Query → Prop) (r : Nested) : Prop where
  expr : ∀ least, YieldsOn T P (r.expr least)
  query : YieldsOn T Q r.query

variable {T : Token → Prop} {P P' : Expr → Prop} {Q Q' : Query → Prop} {r : Nested}

/-! ## Rules that build no tree of their own -/

instance : Advances label := rel_label (R := advancing)
instance : Advances joinKind := rel_joinKind (R := advancing)
instance : Advances sortOrder := rel_sortOrder (R := advancing)
instance : Advances collation := rel_collation (R := advancing)
instance : Advances setOp := rel_setOp (R := advancing)
instance : Advances conflictClause := rel_conflictClause (R := advancing)
instance : Advances insertColumns := rel_insertColumns (R := advancing)
instance : Advances beginTail := rel_beginTail (R := advancing)
instance : Advances startTail := rel_startTail (R := advancing)
instance : Advances commitTail := rel_commitTail (R := advancing)
instance : Advances rollbackTail := rel_rollbackTail (R := advancing)
instance : Advances savepointTail := rel_savepointTail (R := advancing)
instance : Advances releaseTail := rel_releaseTail (R := advancing)

/-! ## Expressions -/

theorem builds_literal (h : Builds T P P' Q Q') (l : Literal) : YieldsOn T P' (literal l) := by
  refine yields_behind fun _ => yields_behind fun k => ?_
  split
  · split
    · exact yields_behind fun _ => yields_pure (h.param _)
    · exact yields_pure (h.literal l)
  · exact yields_pure (h.literal l)

theorem builds_expressions (hr : r.Gives T P Q) :
    YieldsOn T (fun es => es ≠ [] ∧ ∀ e ∈ es, P e) (expressions r) :=
  yields_commaSep (hr.expr 0)

section Nested

variable (h : Builds T P P' Q Q') (hr : r.Gives T P Q)

include h hr

theorem builds_call {name : String} (called : Called T name) : YieldsOn T P' (call r name) := by
  refine yields_parenthesized (yields_behind fun distinct => ?_)
  have arguments : YieldsOn T P' (do
      if ← isAt (.punct .rightParen) then return Expr.call name distinct []
      else return .call name distinct (← expressions r)) := by
    refine yields_behind fun empty => ?_
    split
    · exact yields_pure (h.call called fun e he => absurd he List.not_mem_nil)
    · exact (builds_expressions hr).bind fun es hes => yields_pure (h.call called hes.2)
  split
  · exact arguments
  · exact yields_behind fun _ => arguments

theorem builds_nameFrom (fuel : Nat) {parts : List String} (named : ∀ s ∈ parts, Named T s) :
    YieldsOn T P' (nameFrom r fuel parts) := by
  induction fuel generalizing parts with
  | zero => exact yields_pure (h.name _)
  | succ fuel ih =>
    refine yields_behind fun dot => ?_
    split
    · refine yields_behind fun star => ?_
      split
      · exact yields_pure (h.wildcard _)
      · refine yields_memberName.bind fun part hpart => ih ?_
        exact List.forall_mem_append.2 ⟨named, List.forall_mem_singleton.2 hpart⟩
    · refine yields_behind fun opened => ?_
      split
      · exact builds_call h hr ⟨parts, named, rfl⟩
      · exact yields_pure (h.name _)

theorem builds_nameExpr : YieldsOn T P' (nameExpr r) :=
  (yields_name _).bind fun _ named => yields_behind fun _ =>
    builds_nameFrom h hr _ (List.forall_mem_singleton.2 named)

theorem builds_castCall : YieldsOn T P' (castCall r) := by
  refine yields_behind fun _ => yields_parenthesized ((hr.expr 0).bind fun e he => ?_)
  exact yields_behind fun _ => yields_dataType.bind fun _ typed =>
    yields_pure (h.cast typed (h.deeper he))

omit h in
theorem builds_caseArm : YieldsOn T (fun o => ∀ arm ∈ o, P arm.1 ∧ P arm.2) (caseArm r) :=
  yields_afterWord .WHEN ((hr.expr 0).bind fun _ hcondition => yields_behind fun _ =>
    (hr.expr 0).bind fun _ hvalue => yields_pure ⟨hcondition, hvalue⟩)

omit h in
theorem builds_caseBase : YieldsOn T (fun o => ∀ e ∈ o, P e) (caseBase r) := by
  refine yields_behind fun arm => ?_
  split
  · exact yields_none
  · exact (hr.expr 0).some

omit h in
theorem builds_arms :
    YieldsOn T (fun arms => ∀ arm ∈ arms, P arm.1 ∧ P arm.2) (repeatStep (armStep r) []) := by
  refine yields_repeatStep (fun arms harms => ?_) (by simp)
  refine (builds_caseArm hr).bind fun arm harm => ?_
  cases arm with
  | none => exact yields_none
  | some arm =>
    apply yields_pure
    rintro _ ⟨⟩
    exact List.forall_mem_append.2 ⟨harms, by simpa using harm arm rfl⟩

theorem builds_caseExpr : YieldsOn T P' (caseExpr r) := by
  refine yields_behind fun _ => (builds_caseBase hr).bind fun base hbase => ?_
  refine (builds_arms hr).bind fun arms harms => ?_
  split
  · refine YieldsOn.bind (P := fun _ => False) (yields_fail _) ?_
    intro _ impossible
    exact impossible.elim
  · rename_i nonempty
    have some : arms ≠ [] := by simpa using nonempty
    refine (yields_afterWord .ELSE (hr.expr 0)).bind fun otherwise hotherwise => ?_
    exact yields_behind fun _ => yields_pure (h.cases some hbase harms hotherwise)

theorem builds_existsCall : YieldsOn T P' (existsCall r) :=
  (yields_parenthesized hr.query).bind fun _ hq => yields_pure (h.existence hq)

theorem builds_grouped : YieldsOn T P' (grouped r) := by
  refine yields_behind fun select => ?_
  split
  · exact hr.query.bind fun q hq => yields_behind fun _ => yields_pure (h.subquery hq)
  · exact (hr.expr 0).bind fun e he => yields_behind fun _ => yields_pure (h.deeper he)

/-- The function LEFT or RIGHT is the keyword that stands here. -/
theorem builds_keywordExpr {s s' : Cursor} {k : Keyword} {e : Expr} (among : s.Among T)
    (here : s.current.kind = .keyword k) (run : (keywordExpr r k).run s = .ok (e, s')) :
    P' e ∧ s'.Among T := by
  have function {q : String → Parse Expr} (hq : ∀ {name}, Called T name → YieldsOn T P' (q name))
      (run : (current >>= fun t => advance >>= fun _ => q t.text).run s = .ok (e, s')) :
      P' e ∧ s'.Among T := by
    rw [run_current_bind, run_advance_bind] at run
    exact hq (.of_keyword among.current here) _ _ _ among.next run
  have other {p : Parse Expr} (hp : YieldsOn T P' p) (run : p.run s = .ok (e, s')) :
      P' e ∧ s'.Among T := hp s e s' among run
  rw [keywordExpr, run_nextKind_bind] at run
  split at run
  · exact function (builds_call h hr) run
  · exact function (builds_call h hr) run
  · rename_i typed
    refine other (yields_behind fun _ => (builds_literal h _).bind fun e he => ?_) run
    exact yields_pure (h.cast (.literal typed) he)
  · exact other (yields_behind fun _ => yields_pure (h.literal _)) run
  · exact other (builds_caseExpr h hr) run
  · exact other (builds_castCall h hr) run
  · exact other (yields_behind fun _ => builds_existsCall h hr) run
  · split at run
    · exact other (yields_fail _) run
    · exact other (builds_nameExpr h hr) run

theorem builds_primary : YieldsOn T P' (primary r) := by
  intro s e s' among run
  have other {p : Parse Expr} (hp : YieldsOn T P' p) (run : p.run s = .ok (e, s')) :
      P' e ∧ s'.Among T := hp s e s' among run
  rw [primary, run_kind_bind] at run
  split at run
  · exact other (builds_literal h _) run
  · split at run
    · exact other (yields_behind fun _ => yields_pure (h.param _)) run
    · exact other (yields_behind fun _ => yields_pure (h.param _)) run
    · exact other (yields_behind fun _ => yields_pure (h.wildcard _)) run
    · exact other (yields_behind fun _ => builds_grouped h hr) run
    · exact other (builds_nameExpr h hr) run
    · rename_i here
      exact builds_keywordExpr h hr among here run
    · exact other (yields_fail _) run

theorem builds_operand : YieldsOn T P' (operand r) := by
  have signed {op : Operator} (sign : op = .not ∨ op = .minus ∨ op = .bitNot)
      (spelled : op.Spelled T) (least : Nat) :
      YieldsOn T P' (do advance; return Expr.operation op [← r.expr least]) :=
    yields_behind fun _ => (hr.expr least).bind fun e he => yields_pure (h.signed sign spelled he)
  refine yields_kind fun t token => ?_
  split
  · exact signed (.inl rfl) (.of_plain rfl (by decide)) _
  · exact signed (.inr (.inl rfl)) (.of_plain rfl (by decide)) _
  · rename_i tilde
    exact signed (.inr (.inr rfl)) (.of_tilde token tilde) _
  · exact yields_behind fun _ => (hr.expr _).mono fun _ he => h.deeper he
  · exact builds_primary h hr

variable {lhs : Expr} (hlhs : P' lhs)

include hlhs

omit hr in
theorem Builds.combine {op : Operator} (accepts : op.acceptsOperands 2 = true)
    (spelled : op.Spelled T) {rhs : Expr} (hrhs : P rhs) : P' (combine op lhs rhs) := by
  have pair : P' (.operation op [lhs, rhs]) :=
    h.operation (List.cons_ne_nil _ _) accepts spelled hlhs (List.forall_mem_singleton.2 hrhs)
  unfold Grammar.combine
  split
  · rename_i op' operands
    split
    · rename_i chain
      obtain ⟨flattens, rfl⟩ : op.flattens = true ∧ op' = op := by simpa using chain
      exact h.chained flattens hlhs hrhs
    · exact pair
  · exact pair

theorem builds_inList {op : Operator} (member : op = .isIn ∨ op = .notIn) :
    YieldsOn T P' (inList r op lhs) := by
  refine yields_parenthesized (yields_behind fun select => ?_)
  split
  · exact hr.query.bind fun q hq => yields_pure (h.membership member hlhs hq)
  · refine (builds_expressions hr).bind fun es hes => yields_pure ?_
    have positive := List.length_pos_iff.2 hes.1
    rcases member with rfl | rfl
    · exact h.operation hes.1 (decide_eq_true (by omega)) (.of_plain rfl (by decide)) hlhs hes.2
    · exact h.operation hes.1 (decide_eq_true (by omega)) (.of_plain rfl (by decide)) hlhs hes.2

/-- An infix form of an operator with two operands. -/
theorem builds_pair {op : Operator} (accepts : op.acceptsOperands 2 = true)
    (spelled : op.Spelled T) (least : Nat) :
    YieldsOn T (fun e => P' e ∧ ∃ rhs, e = .operation op [lhs, rhs])
      (do return Expr.operation op [lhs, ← r.expr least]) :=
  (hr.expr least).bind fun e he => yields_pure
    ⟨h.operation (List.cons_ne_nil _ _) accepts spelled hlhs (List.forall_mem_singleton.2 he), e, rfl⟩

theorem builds_betweenBounds :
    YieldsOn T (fun e => P' e ∧ e.isTest = true) (betweenBounds r lhs) := by
  refine (hr.expr _).bind fun low hlow => yields_behind fun _ => ?_
  refine (hr.expr _).bind fun high hhigh => yields_pure ⟨?_, rfl⟩
  exact h.operation (List.cons_ne_nil _ _) rfl (.of_plain rfl (by decide)) hlhs
    (List.forall_mem_cons.2 ⟨hlow, List.forall_mem_singleton.2 hhigh⟩)

theorem builds_similarPattern :
    YieldsOn T (fun e => P' e ∧ e.isTest = true) (similarPattern r lhs) := by
  refine yields_behind fun _ => (builds_pair h hr hlhs rfl (.of_plain rfl (by decide)) _).mono ?_
  rintro _ ⟨he, rhs, rfl⟩
  exact ⟨he, rfl⟩

theorem builds_negatedTail : YieldsOn T P' (negatedTail r lhs) := by
  have negated {p : Parse Expr} (hp : YieldsOn T (fun e => P' e ∧ e.isTest = true) p) :
      YieldsOn T P' (do return Expr.operation .not [← p]) :=
    hp.bind fun e he => yields_pure (h.negated he.2 he.1)
  have pattern {op : Operator} (accepts : op.acceptsOperands 2 = true) (spelled : op.Spelled T)
      (least : Nat) := (builds_pair h hr hlhs accepts spelled least).mono fun _ he => he.1
  refine yields_behind fun k => ?_
  split
  · exact yields_behind fun _ => builds_inList h hr hlhs (.inr rfl)
  · exact yields_behind fun _ => pattern rfl (.of_plain rfl (by decide)) _
  · exact yields_behind fun _ => pattern rfl (.of_plain rfl (by decide)) _
  · exact yields_behind fun _ => negated (builds_betweenBounds h hr hlhs)
  · exact yields_behind fun _ => negated (builds_similarPattern h hr hlhs)
  · exact yields_behind fun _ => yields_pure (h.nullTest (.inr rfl) hlhs)
  · exact yields_fail _

theorem builds_isTail : YieldsOn T P' (isTail r lhs) := by
  refine yields_behind fun negated => yields_behind fun null => ?_
  split
  · apply yields_pure
    cases negated
    · exact h.nullTest (.inl rfl) hlhs
    · exact h.nullTest (.inr rfl) hlhs
  · refine (hr.expr _).bind fun e he => yields_pure ?_
    have test : P' (.operation .is [lhs, e]) :=
      h.operation (List.cons_ne_nil _ _) rfl (.of_plain rfl (by decide)) hlhs
        (List.forall_mem_singleton.2 he)
    cases negated
    · exact test
    · exact h.negated rfl test

theorem builds_infixTail {form : Infix}
    (taken : ∀ op, form = .binary op → op.acceptsOperands 2 = true ∧ op.Spelled T) :
    YieldsOn T P' (infixTail r lhs form) := by
  cases form with
  | cast => exact yields_dataType.bind fun _ typed => yields_pure (h.cast typed hlhs)
  | isNull => exact yields_pure (h.nullTest (.inl rfl) hlhs)
  | isNotNull => exact yields_pure (h.nullTest (.inr rfl) hlhs)
  | is => exact builds_isTail h hr hlhs
  | negated => exact builds_negatedTail h hr hlhs
  | isIn => exact builds_inList h hr hlhs (.inl rfl)
  | between => exact (builds_betweenBounds h hr hlhs).mono fun _ he => he.1
  | similar => exact (builds_similarPattern h hr hlhs).mono fun _ he => he.1
  | binary op =>
    obtain ⟨accepts, spelled⟩ := taken op rfl
    exact (hr.expr _).bind fun e he => yields_pure (h.combine hlhs accepts spelled he)

omit hlhs

theorem builds_expressionBody (least : Nat) : YieldsOn T P' (expressionBody r least) := by
  refine (builds_operand h hr).bind fun first hfirst => ?_
  refine yields_repeatStep (fun lhs hlhs => yields_kind fun t token => ?_) hfirst
  split
  · exact yields_none
  · rename_i form begins
    split
    · exact yields_none
    · refine yields_behind fun _ => (builds_infixTail h hr hlhs fun op binary => ?_).some
      subst binary
      exact ⟨Infix.acceptsOperands_of_ofToken? begins, .of_binary token begins⟩

end Nested

/-! ## Queries -/

section Sources

variable (hr : r.Gives T P Q)

include hr

/-- Only a join that can have a condition has one. -/
theorem builds_joinCondition (k : JoinKind) :
    YieldsOn T (fun on => (∀ e ∈ on.expr?, P e) ∧ (on ≠ .none → k ≠ .cross ∧ k ≠ .natural))
      (joinCondition r k) := by
  unfold joinCondition
  split
  · exact yields_pure (by simp [JoinCondition.expr?])
  · rename_i other
    have allowed : k ≠ .cross ∧ k ≠ .natural := by simpa using other
    refine yields_behind fun on => ?_
    split
    · refine (hr.expr 0).bind fun e he => yields_pure ⟨?_, fun _ => allowed⟩
      simpa [JoinCondition.expr?] using he
    · refine yields_behind fun columns => ?_
      split
      · exact yields_behind fun _ => yields_pure (by simp [JoinCondition.expr?, allowed])
      · exact yields_pure (by simp [JoinCondition.expr?])

theorem builds_target : YieldsOn T (fun t => ∀ q ∈ t.rows.query?, Q q) (target r) := by
  have named (rows : TableSource) (h : ∀ q ∈ rows.query?, Q q) :
      YieldsOn T (fun t : Target => ∀ q ∈ t.rows.query?, Q q)
        (do return { rows, label := ← label : Target }) :=
    yields_behind fun _ => yields_pure h
  refine yields_behind fun opened => ?_
  split
  · refine YieldsOn.bind (P := fun rows => ∀ q ∈ rows.query?, Q q) ?_ named
    refine (yields_parenthesized hr.query).map fun q hq => ?_
    simpa [TableSource.query?] using hq
  · refine YieldsOn.bind (P := fun rows => ∀ q ∈ rows.query?, Q q) ?_ named
    exact yields_mapping (by simp [TableSource.query?])

omit hr in
theorem builtOf_single {t : Target} (ht : ∀ q ∈ t.rows.query?, Q q) :
    FromClause.BuiltOf P Q ⟨[t], []⟩ := by
  have queries := FromClause.queries_push ⟨[], []⟩ t []
  refine ⟨⟨List.cons_ne_nil t [], by simp⟩, by simp [FromClause.parts], fun q hq => ht q ?_⟩
  change q ∈ FromClause.queries ⟨[] ++ [t], []⟩ at hq
  rw [queries] at hq
  simpa [FromClause.queries] using hq

omit hr in
/-- A further target moves no join away from the target that it stands at. -/
theorem builtOf_push {f : FromClause} (hf : f.BuiltOf P Q) {t : Target}
    (ht : ∀ q ∈ t.rows.query?, Q q) {kind : JoinKind} {on : JoinCondition}
    (hon : ∀ e ∈ on.expr?, P e) (allowed : on ≠ .none → kind ≠ .cross ∧ kind ≠ .natural) :
    FromClause.BuiltOf P Q ⟨f.targets ++ [t], f.joins ++ [⟨kind, f.targets.length, on⟩]⟩ := by
  have length : (f.targets ++ [t]).length = f.targets.length + 1 := List.length_append
  refine ⟨⟨by simp, ?_⟩, ?_, ?_⟩
  · rw [List.forall_mem_append, List.forall_mem_singleton, length]
    constructor
    · intro j hj
      have placed := hf.here.joins j hj
      exact ⟨placed.behindFirst, Nat.lt_succ_of_lt placed.atTarget, placed.condition⟩
    · exact ⟨List.length_pos_iff.2 hf.here.targets, Nat.lt_succ_self _, allowed⟩
  · rw [FromClause.parts_push, List.forall_mem_append]
    exact ⟨hf.parts, fun e he => hon e (Option.mem_toList.1 he)⟩
  · rw [FromClause.queries_push, List.forall_mem_append]
    exact ⟨hf.queries, fun q hq => ht q (Option.mem_toList.1 hq)⟩

theorem builds_joinStep {f : FromClause} (hf : f.BuiltOf P Q) :
    YieldsOn T (fun o => ∀ f' ∈ o, f'.BuiltOf P Q) (joinStep r f) := by
  refine yields_behind fun kind => ?_
  cases kind with
  | none => exact yields_none
  | some kind =>
    refine (builds_target hr).bind fun t ht => (builds_joinCondition hr kind).bind fun on hon => ?_
    apply yields_pure
    rintro _ ⟨⟩
    exact builtOf_push hf ht hon.1 hon.2

theorem builds_fromClause : YieldsOn T (FromClause.BuiltOf P Q) (fromClause r) :=
  (builds_target hr).bind fun _ ht =>
    yields_repeatStep (fun _ hf => builds_joinStep hr hf) (builtOf_single ht)

theorem builds_column : YieldsOn T (fun c => P c.expr) (column r) := by
  refine (hr.expr 0).bind fun e he => ?_
  split
  · exact yields_pure he
  · exact yields_behind fun _ => yields_pure he

theorem builds_distinctClause : YieldsOn T (fun x => ∀ e ∈ x.2, P e) (distinctClause r) := by
  refine yields_behind fun distinct => ?_
  split
  · exact (yields_afterWord .ON (yields_parenthesized (hr.expr 0))).bind fun _ hon => yields_pure hon
  · exact yields_behind fun _ => yields_pure (by simp)

theorem builds_groupBy : YieldsOn T (fun o => ∀ es ∈ o, ∀ e ∈ es, P e)
    (afterWord .GROUP (do word .BY; expressions r)) :=
  yields_afterWord .GROUP (yields_behind fun _ => (builds_expressions hr).mono fun _ hes => hes.2)

theorem builds_orderItem : YieldsOn T (fun o => P o.expr) (orderItem r) :=
  (hr.expr 0).bind fun _ he => yields_behind fun _ => yields_behind fun _ => yields_pure he

theorem builds_limitClause :
    YieldsOn T (fun x => (∀ e ∈ x.1, P e) ∧ ∀ e ∈ x.2, P e) (limitClause r) := by
  refine yields_behind fun limited => ?_
  split
  · refine (hr.expr 0).bind fun first hfirst => yields_behind fun comma => ?_
    split
    · exact (hr.expr 0).bind fun e he => yields_pure (by simp [hfirst, he])
    · exact yields_pure (by simp [hfirst])
  · exact yields_pure (by simp)

theorem builds_bounds : YieldsOn T (fun b => ∀ e ∈ b.parts, P e) (bounds r) := by
  have items : YieldsOn T (fun o : Option (List OrderItem) => ∀ os ∈ o, ∀ i ∈ os, P i.expr)
      (afterWord .ORDER (do word .BY; commaSep (orderItem r))) :=
    yields_afterWord .ORDER (yields_behind fun _ =>
      (yields_commaSep (builds_orderItem hr)).mono fun _ hos => hos.2)
  refine items.bind fun orderBy horder => ?_
  have keys : ∀ i ∈ orderBy.getD [], P i.expr := by
    cases orderBy with
    | none => exact fun _ h => by cases h
    | some os => exact horder os rfl
  have all {limit offset : Option Expr} (hlimit : ∀ e ∈ limit, P e) (hoffset : ∀ e ∈ offset, P e) :
      ∀ e ∈ (Bounds.mk (orderBy.getD []) limit offset).parts, P e := by
    simp only [Bounds.parts, List.forall_mem_append, List.forall_mem_map, Option.mem_toList]
    exact ⟨⟨keys, hlimit⟩, hoffset⟩
  refine (builds_limitClause hr).bind fun (limit, offset) hlimit => ?_
  dsimp only
  split
  · exact (yields_afterWord .OFFSET (hr.expr 0)).bind fun _ hoffset =>
      yields_pure (all hlimit.1 hoffset)
  · exact (yields_pure hlimit.2).bind fun _ hoffset => yields_pure (all hlimit.1 hoffset)

end Sources

/-- A chain of branches while it is read: it has a branch and no bounding clauses. -/
structure ChainOf (Q : Query → Prop) (c : Compound) : Prop where
  nonempty : c.branches ≠ []
  branches : ∀ q ∈ c.branches, Q q
  unbounded : c = .ofBranches c.op c.branches

namespace ChainOf

variable {c : Compound}

theorem ofBranches {qs : List Query} (nonempty : qs ≠ []) (h : ∀ q ∈ qs, Q q) (op : SetOp) :
    ChainOf Q (.ofBranches op qs) := ⟨nonempty, h, rfl⟩

theorem compound (h : Builds T P P' Q Q') (hc : ChainOf Q' c) (enough : 2 ≤ c.branches.length) :
    Q' (.compound c) := by
  rw [hc.unbounded]
  exact h.compound enough hc.branches

theorem addBranch (h : Builds T P P' Q Q') (hc : ChainOf Q' c) {q : Query} (hq : Q' q) (op : SetOp) :
    ChainOf Q' (addBranch c op q) := by
  unfold Grammar.addBranch
  by_cases same : c.branches.length ≤ 1 ∨ c.op = op
  · rw [if_pos (by simpa using same)]
    refine ⟨by simp, ?_, ?_⟩
    · exact List.forall_mem_append.2 ⟨hc.branches, List.forall_mem_singleton.2 hq⟩
    · rw [hc.unbounded]
      rfl
  · rw [if_neg (by simpa using same)]
    have enough : 2 ≤ c.branches.length := by omega
    have pair : ∀ q' ∈ [.compound c, q], Q' q' :=
      List.forall_mem_cons.2 ⟨hc.compound h enough, List.forall_mem_singleton.2 hq⟩
    exact .ofBranches (List.cons_ne_nil _ _) pair op

/-- The only branch of a chain stands for itself, and several are a compound. -/
theorem reduce (h : Builds T P P' Q Q') (hc : ChainOf Q' c) : Q' c.reduce := by
  unfold Compound.reduce
  split
  · rename_i only single
    have unbounded : c.isBounded = false := by
      rw [hc.unbounded]
      rfl
    rw [unbounded]
    exact hc.branches only (by simp [single])
  · rename_i several
    refine hc.compound h ?_
    rcases hb : c.branches with _ | ⟨q, _ | ⟨q', qs⟩⟩
    · exact absurd hb hc.nonempty
    · exact absurd hb (several q)
    · simp

end ChainOf

section Nested

variable (h : Builds T P P' Q Q') (hr : r.Gives T P Q)

include h hr

theorem builds_selectCore : YieldsOn T (fun s => Q' (.select s)) (selectCore r) := by
  refine yields_behind fun _ => (builds_distinctClause hr).bind fun (distinct, on) hon => ?_
  refine (yields_commaSep (builds_column hr)).bind fun columns hcolumns => ?_
  refine (yields_afterWord .FROM (builds_fromClause hr)).bind fun source hsource => ?_
  refine (yields_afterWord .WHERE (hr.expr 0)).bind fun condition hcondition => ?_
  refine (builds_groupBy hr).bind fun groupBy hgroup => ?_
  refine (yields_afterWord .HAVING (hr.expr 0)).bind fun having hhaving => yields_pure ?_
  have hgroup : ∀ e ∈ groupBy.getD [], P e := by
    cases groupBy with
    | none => exact fun _ h => by cases h
    | some es => exact hgroup es rfl
  refine h.select ⟨hcolumns.1, fun f hf => (hsource f hf).here⟩ ?_ ?_
  · simp only [Query.parts, List.forall_mem_append, Option.mem_toList, List.forall_mem_map]
    refine ⟨⟨⟨⟨⟨⟨⟨⟨hon, hcolumns.2⟩, ?_⟩, hcondition⟩, hgroup⟩, hhaving⟩, by simp⟩, by simp⟩,
      by simp⟩
    cases source with
    | none => exact fun _ h => by cases h
    | some f => exact (hsource f rfl).parts
  · cases source with
    | none => exact fun _ h => by cases h
    | some f => exact (hsource f rfl).queries

theorem builds_queryTerm : YieldsOn T Q' (queryTerm r) := by
  refine yields_behind fun opened => ?_
  split
  · exact (yields_parenthesized hr.query).mono fun _ hq => h.deeperQuery hq
  · exact (builds_selectCore h hr).map fun _ hs => hs

theorem builds_chain {first : Query} (hfirst : Q' first) :
    YieldsOn T (ChainOf Q') (repeatStep (branchStep r) (.ofBranches .union [first])) := by
  have start : ChainOf Q' (.ofBranches .union [first]) :=
    .ofBranches (List.cons_ne_nil _ _) (List.forall_mem_singleton.2 hfirst) _
  refine yields_repeatStep (fun chain hchain => yields_behind fun op => ?_) start
  cases op with
  | none => exact yields_none
  | some op =>
    refine (builds_queryTerm h hr).bind fun q hq => yields_pure ?_
    rintro _ ⟨⟩
    exact hchain.addBranch h hq op

theorem builds_queryBody : YieldsOn T Q' (queryBody r) := by
  refine (builds_queryTerm h hr).bind fun first hfirst => ?_
  refine (builds_chain h hr hfirst).bind fun chain hchain => ?_
  dsimp only
  split
  · exact yields_pure (hchain.reduce h)
  · exact (builds_bounds hr).bind fun _ hb => yields_pure (h.bounded (hchain.reduce h) hb)

end Nested

/-- If each level leads to the next, what is read with some levels of nesting has what belongs to
them. With no levels left nothing is read. -/
theorem gives_levels {P : Nat → Expr → Prop} {Q : Nat → Query → Prop}
    (h : ∀ n, Builds T (P n) (P (n + 1)) (Q n) (Q (n + 1))) (limit levels : Nat) :
    Nested.Gives T (P levels) (Q levels) ⟨expression limit levels, query limit levels⟩ := by
  induction levels with
  | zero => exact ⟨fun _ => yields_failWith _, yields_failWith _⟩
  | succ levels ih =>
    exact ⟨fun least => builds_expressionBody (h levels) ih least, builds_queryBody (h levels) ih⟩

/-! ## Statements -/

/-- The rows of an INSERT are built of expressions with `P` or are a query with `Q`. -/
structure SourceOf (P : Expr → Prop) (Q : Query → Prop) (s : InsertSource) : Prop where
  parts : ∀ e ∈ s.parts, P e
  queries : ∀ q ∈ s.queries, Q q

section Nested

variable (hr : r.Gives T P Q)

include hr

theorem builds_insertSource : YieldsOn T (SourceOf P Q) (insertSource r) := by
  refine yields_behind fun k => ?_
  split
  · refine yields_behind fun _ =>
      (yields_commaSep (yields_parenthesized (builds_expressions hr))).map fun rows hrows => ?_
    refine ⟨fun e he => ?_, by simp [InsertSource.queries]⟩
    obtain ⟨row, hrow, he⟩ := List.mem_flatten.1 he
    exact (hrows.2 row hrow).2 e he
  · refine yields_behind fun _ => yields_behind fun _ => yields_pure ⟨?_, ?_⟩
    · simp [InsertSource.parts]
    · simp [InsertSource.queries]
  · exact hr.query.map fun q hq => ⟨by simp [InsertSource.parts], by simpa [InsertSource.queries]⟩
  · exact hr.query.map fun q hq => ⟨by simp [InsertSource.parts], by simpa [InsertSource.queries]⟩
  · exact yields_fail _

theorem builds_insert : YieldsOn T (fun i => SourceOf P Q i.source) (insert r) := by
  have tail (onConflict : Option String) : YieldsOn T (fun i => SourceOf P Q i.source) (do
      word .INTO
      let table ← qualifiedName "table name"
      let columns ← insertColumns
      return { table, columns, source := ← insertSource r, onConflict : Insert }) :=
    yields_behind fun _ => yields_behind fun _ => yields_behind fun _ =>
      (builds_insertSource hr).bind fun _ hs => yields_pure hs
  refine yields_behind fun replace => ?_
  split
  · exact yields_behind tail
  · exact yields_behind fun _ => yields_behind tail

theorem builds_update : YieldsOn T (fun u => (Body.update u).BuiltOf P Q) (update r) := by
  have item : YieldsOn T (fun a => P a.value) (assignment r) :=
    yields_behind fun _ => yields_behind fun _ => (hr.expr 0).bind fun _ he => yields_pure he
  refine yields_behind fun _ => yields_behind fun _ => yields_behind fun _ => yields_behind fun _ => ?_
  refine (yields_commaSep item).bind fun assignments hassignments => ?_
  refine (yields_afterWord .WHERE (hr.expr 0)).bind fun condition hcondition => yields_pure ?_
  refine ⟨?_, by simp [Body.queries], ?_⟩
  · rw [Body.parts, List.forall_mem_append, List.forall_mem_map]
    exact ⟨hassignments.2, fun e he => hcondition e (Option.mem_toList.1 he)⟩
  · rintro _ ⟨⟩
    exact hassignments.1

theorem builds_delete : YieldsOn T (fun d => (Body.delete d).BuiltOf P Q) (delete r) := by
  refine yields_behind fun _ => yields_behind fun _ => yields_behind fun _ => ?_
  refine (yields_afterWord .WHERE (hr.expr 0)).bind fun condition hcondition => yields_pure ?_
  refine ⟨?_, by simp [Body.queries], by simp⟩
  intro e he
  exact hcondition e (Option.mem_toList.1 he)

theorem builds_body : YieldsOn T (Body.BuiltOf P Q) (body r) := by
  have whole (q : Query) (hq : Q q) : (Body.ofQuery q).BuiltOf P Q := by
    have single : ∀ q' ∈ [q], Q q' := List.forall_mem_singleton.2 hq
    cases q with
    | select s => exact ⟨by simp [Body.ofQuery, Body.parts], single, by simp [Body.ofQuery]⟩
    | compound c => exact ⟨by simp [Body.ofQuery, Body.parts], single, by simp [Body.ofQuery]⟩
  have insertion (i : Insert) (hi : SourceOf P Q i.source) : (Body.insert i).BuiltOf P Q :=
    ⟨hi.parts, hi.queries, by simp⟩
  have command (tail : Parse Transaction) [Advances tail] :
      YieldsOn T (Body.BuiltOf P Q) (do advance; Body.transaction <$> tail) :=
    yields_behind fun _ => yields_mapping fun t =>
      ⟨by simp [Body.parts], by simp [Body.queries], by simp⟩
  refine yields_behind fun k => ?_
  split
  · exact hr.query.map whole
  · exact hr.query.map whole
  · exact (builds_insert hr).map insertion
  · exact (builds_insert hr).map insertion
  · exact (builds_update hr).map fun _ hu => hu
  · exact (builds_delete hr).map fun _ hd => hd
  · exact command _
  · exact command _
  · exact command _
  · exact command _
  · exact command _
  · exact command _
  · exact command _
  · exact yields_fail _

end Nested

end Grammar

/-- If each level leads to the next, tokens are read as a statement that is built of what belongs to
all levels allowed. -/
theorem Body.builtOf_ofTokens {T : Token → Prop} {P : Nat → Expr → Prop} {Q : Nat → Query → Prop}
    (h : ∀ n, Grammar.Builds T (P n) (P (n + 1)) (Q n) (Q (n + 1))) {limit : Nat} {ts : List Token}
    {b : Body} (among : (Cursor.ofTokens ts).Among T) (read : Body.ofTokens limit ts = .ok b) :
    b.BuiltOf (P limit) (Q limit) :=
  Body.of_ofTokens_among (Grammar.builds_body (Grammar.gives_levels h limit limit)) among read

end BoundSql
