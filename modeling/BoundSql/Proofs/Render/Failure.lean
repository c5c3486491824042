import BoundSql.Proofs.Render.Gives
import BoundSql.Proofs.Tree.Joins
import BoundSql.Proofs.Tree.Somewhere
import Mathlib.Data.List.Basic
import Mathlib.Tactic.Tauto

/-!
# Why writing fails

Writing a tree fails just if something in it cannot be written by itself, and then with the error
of such a place: `RenderContext.risks_body`. `Risks errors c` says that these are the errors of a
computation. There is a rule for each way in which computations are put together, and from these
one lemma for each construct of a tree.
-/

namespace BoundSql

namespace Render

variable {α β : Type} {errors more : SqlError → Prop} {c : Render α}

/-- The outcome is a failure just if there is one of these errors, and then with one of them. -/
def Accounts (errors : SqlError → Prop) : Except SqlError α → Prop
  | .ok _ => ∀ e, ¬ errors e
  | .error e => errors e

/-- The computation fails just if there is one of these errors, and then with one of them. -/
def Risks (errors : SqlError → Prop) (c : Render α) : Prop :=
  ∀ used, Accounts errors (c.run.run used).1

theorem accounts_self (c : Except SqlError α) : Accounts (fun e => c = .error e) c := by
  cases c with
  | ok a => rintro e ⟨⟩
  | error e => rfl

theorem Accounts.congr {c : Except SqlError α} (h : Accounts errors c)
    (same : ∀ e, errors e ↔ more e) : Accounts more c := by
  cases c with
  | ok a => exact fun e => mt (same e).2 (h e)
  | error e => exact (same e).1 h

theorem risks_pure (a : α) : Risks (fun _ => False) (pure a) := fun _ _ => id

/-- The first computation that fails is the one that reports. -/
theorem Risks.bind {f : α → Render β} (hc : Risks errors c) (hf : ∀ a, Risks more (f a)) :
    Risks (fun e => errors e ∨ more e) (c >>= f) := by
  intro used
  have first := hc used
  rw [run_bind]
  generalize c.run.run used = outcome at first ⊢
  obtain ⟨answer, behind⟩ := outcome
  cases answer with
  | error e => exact .inl first
  | ok a =>
    have second := hf a behind
    dsimp only
    generalize ((f a).run.run behind).1 = answer at second ⊢
    cases answer with
    | error e => exact .inr second
    | ok b => exact fun e => not_or.2 ⟨first e, second e⟩

/-- The same errors, said in another way. -/
theorem Risks.congr (h : Risks errors c) (same : ∀ e, errors e ↔ more e) : Risks more c :=
  fun used => (h used).congr same

/-- What is made of the answer is of no account. -/
theorem risks_map {f : α → β} : Risks errors (f <$> c) ↔ Risks errors c := by
  have same (used : List String) :
      Accounts errors ((f <$> c).run.run used).1 ↔ Accounts errors (c.run.run used).1 := by
    rw [← bind_pure_comp, run_bind]
    generalize c.run.run used = outcome
    obtain ⟨answer, behind⟩ := outcome
    cases answer <;> exact Iff.rfl
  exact forall_congr' same

theorem Risks.map (f : α → β) (h : Risks errors c) : Risks errors (do return f (← c)) := by
  have mapped := risks_map (f := f).2 h
  rwa [← bind_pure_comp] at mapped

theorem risks_lift {c : Except SqlError α} (h : Accounts errors c) :
    Risks errors (liftM c : Render α) := by
  intro used
  cases c <;> exact h

/-- Behind a step that may fail but writes nothing. -/
theorem Accounts.risks {c : Except SqlError α} {f : α → Render β} (hc : Accounts errors c)
    (hf : ∀ a, Risks more (f a)) :
    Risks (fun e => errors e ∨ more e) ((liftM c : Render α) >>= f) :=
  (risks_lift hc).bind hf

section List

variable {ι : Type} {errors : ι → SqlError → Prop} {x : ι} {xs : List ι}

theorem risks_nil (a : α) : Risks (fun e => ∃ x ∈ [], errors x e) (pure a) :=
  (risks_pure a).congr fun e => by simp

/-- The first of some things in a row, and the others behind it. -/
theorem Risks.cons {f : α → Render β} (hc : Risks (errors x) c)
    (hf : ∀ a, Risks (fun e => ∃ y ∈ xs, errors y e) (f a)) :
    Risks (fun e => ∃ y ∈ x :: xs, errors y e) (c >>= f) :=
  (hc.bind hf).congr fun e => (List.exists_mem_cons_iff (errors · e) x xs).symm

/-- Some things in a row, and others behind them. -/
theorem Risks.append {ys : List ι} {f : α → Render β} (hc : Risks (fun e => ∃ y ∈ xs, errors y e) c)
    (hf : ∀ a, Risks (fun e => ∃ y ∈ ys, errors y e) (f a)) :
    Risks (fun e => ∃ y ∈ xs ++ ys, errors y e) (c >>= f) :=
  (hc.bind hf).congr fun e => by simp only [List.mem_append, or_and_right, exists_or]

theorem risks_singleton (h : Risks (errors x) c) : Risks (fun e => ∃ y ∈ [x], errors y e) c :=
  h.congr fun e => by simp

theorem risks_mapM {f : ι → Render β} (h : ∀ x ∈ xs, Risks (errors x) (f x)) :
    Risks (fun e => ∃ x ∈ xs, errors x e) (xs.mapM f) := by
  induction xs with
  | nil => exact risks_nil []
  | cons x xs ih =>
    obtain ⟨head, tail⟩ := List.forall_mem_cons.1 h
    rw [List.mapM_cons]
    exact head.cons fun y => .map _ (ih tail)

end List

end Render

open Phrase Render RenderContext

/-! ## Checks -/

/-- The check fails just if `P` holds, and then because the dialect does not have something. -/
structure Gates (d : Dialect) (P : Prop) {α : Type} (c : Except SqlError α) : Prop where
  fails : (∃ err, c = .error err) ↔ P
  unsupported : ∀ err, c = .error err → ∃ what, err = .render (.unsupported what d)

namespace Gates

variable {α β : Type} {d : Dialect} {r : RenderContext} {P Q : Prop} {c c' : Except SqlError α}

theorem congr (h : Gates d P c) (same : P ↔ Q) : Gates d Q c := ⟨h.fails.trans same, h.unsupported⟩

theorem ok (d : Dialect) (a : α) : Gates d False (.ok a : Except SqlError α) :=
  ⟨by simp, by rintro err ⟨⟩⟩

theorem refuse (r : RenderContext) (what : String) :
    Gates r.dialect True (r.unsupported what : Except SqlError α) := by
  refine ⟨iff_of_true ⟨_, rfl⟩ trivial, fun err failed => ⟨what, ?_⟩⟩
  cases failed
  rfl

theorem ite {b : Prop} [Decidable b] (h : Gates d P c) (h' : Gates d Q c') :
    Gates d (if b then P else Q) (if b then c else c') := by
  split
  · exact h
  · exact h'

/-- A case for which the dialect has nothing, in front of the others. -/
theorem refuseIf {b : Prop} [Decidable b] {what : String} (h : Gates r.dialect P c) :
    Gates r.dialect (b ∨ P) (if b then r.unsupported what else c) :=
  ((refuse r what).ite h).congr (by simp [or_iff_not_imp_left])

theorem map {f : α → β} (h : Gates d P c) : Gates d P (c >>= fun a => pure (f a)) := by
  cases c with
  | error err =>
    refine ⟨⟨fun _ => h.fails.1 ⟨err, rfl⟩, fun _ => ⟨err, rfl⟩⟩, ?_⟩
    rintro _ ⟨⟩
    exact h.unsupported err rfl
  | ok a => exact (ok d (f a)).congr (by simpa using h.fails)

end Gates

namespace RenderContext

variable (r : RenderContext)

theorem gates_checkOperator (op : Operator) : Gates r.dialect
    (op.isIlike ∧ r.dialect.ilike = false ∨ op.isRegexp ∧ r.dialect.regexpOperators = false)
    (r.checkOperator op) :=
  (Gates.refuseIf (.refuseIf (.ok _ ()))).congr (by simp)

theorem gates_checkSetOp (op : SetOp) : Gates r.dialect
    ((op = .intersectAll ∨ op = .exceptAll) ∧ r.dialect.setOpAll = false) (r.checkSetOp op) :=
  (Gates.refuseIf (.ok _ ())).congr (by simp)

theorem gates_checkDistinctOn (stands : Bool) : Gates r.dialect
    (stands ∧ r.dialect.distinctOn = false) (r.checkDistinctOn stands) :=
  (Gates.refuseIf (.ok _ ())).congr (by simp)

theorem gates_checkJoin (kind : JoinKind) : Gates r.dialect
    ((kind = .full ∨ kind = .right) ∧ r.dialect.fullJoin = false) (r.checkJoin kind) :=
  (Gates.refuseIf (.ok _ ())).congr (by simp)

theorem gates_branch (op : SetOp) (n : Nat) (q : Query) (p : Phrase) : Gates r.dialect
    (q.needsParens op n ∧ r.dialect.parenthesizedBranches = false ∧ (0 < n ∨ q.isBounded))
    (r.branch op n q p) :=
  ((Gates.ok _ _).ite ((Gates.ok _ _).ite ((Gates.ok _ _).ite (.refuse r _)))).congr (by
    simp [Nat.pos_iff_ne_zero, or_iff_not_imp_left])

theorem gates_updateWords (action : Option String) : Gates r.dialect
    (r.dialect = .mysql ∧ ∃ a ∈ action, a.toUpper ≠ "IGNORE") (r.updateWords action) := by
  cases action with
  | none => exact (Gates.ok _ _).congr (by simp)
  | some a => exact (((Gates.ok _ _).ite (.refuse r _)).ite (.ok _ _)).congr (by simp)

theorem gates_beginWords (t : Transaction) : Gates r.dialect
    (r.dialect = .mysql ∧ t.isolation.isSome ∨ (∃ m ∈ t.mode, m.isLocking) ∧ r.dialect ≠ .sqlite)
    (r.beginWords t) := by
  unfold beginWords
  extract_lets locking
  have locks : locking ↔ ∃ m ∈ t.mode, m.isLocking := by
    simp only [locking]
    cases t.mode <;> simp
  refine (Gates.refuseIf (.refuseIf (P := False) ?_)).congr ?_
  · split <;> exact .ok _ _
  · simp only [Bool.and_eq_true, decide_eq_true_eq, bne_iff_ne, locks, or_false]

theorem gates_beginPhrase (t : Transaction) : Gates r.dialect
    (r.dialect = .mysql ∧ t.isolation.isSome ∨ (∃ m ∈ t.mode, m.isLocking) ∧ r.dialect ≠ .sqlite)
    (r.beginPhrase t) :=
  (r.gates_beginWords t).map

end RenderContext

/-! ## The errors of a place -/

/-- The value of the parameter is to be written, and there is none. -/
def RenderContext.Refuses (r : RenderContext) (p : ParamRef) (err : SqlError) : Prop :=
  p.nullBound = false ∧ r.settings.style = .inline ∧ r.resolve p = .error err

/-- Whether the operator can be written with `n` operands. -/
def Operator.isWritten (op : Operator) (n : Nat) : Bool :=
  2 ≤ n || n == 1 && op.shape != .range && op.shape != .between

/-- The expression by itself cannot be written, whatever stands below it. -/
inductive Expr.FailsHere (r : RenderContext) : Expr → SqlError → Prop
  | param {p : ParamRef} {err : SqlError} (h : r.Refuses p err) : FailsHere r (.param p) err
  | operator {op : Operator} {operands : List Expr} {err : SqlError}
    (h : r.checkOperator op = .error err) : FailsHere r (.operation op operands) err
  | operands {op : Operator} {operands : List Expr} (h : op.isWritten operands.length = false) :
    FailsHere r (.operation op operands) (.render (.operandCount op operands.length))

/-- The query by itself cannot be written, whatever stands below it. -/
inductive Query.FailsHere (r : RenderContext) : Query → SqlError → Prop
  | distinctOn {s : Select} {err : SqlError}
    (h : r.checkDistinctOn s.distinctOn.isSome = .error err) :
    FailsHere r (.select s) err
  | join {s : Select} {f : FromClause} {j : Join} {err : SqlError} (source : f ∈ s.source)
    (member : j ∈ f.joins) (h : r.checkJoin j.kind = .error err) : FailsHere r (.select s) err
  | setOp {c : Compound} {err : SqlError} (h : r.checkSetOp c.op = .error err) :
    FailsHere r (.compound c) err
  | branch {c : Compound} {n : Nat} {q : Query} {err : SqlError} (at' : c.branches[n]? = some q)
    (h : r.branch c.op n q [] = .error err) : FailsHere r (.compound c) err

/-- The statement by itself cannot be written, whatever stands below it. -/
inductive Body.FailsHere (r : RenderContext) : Body → SqlError → Prop
  | update {u : Update} {err : SqlError} (h : r.updateWords u.onConflict = .error err) :
    FailsHere r (.update u) err
  | transaction {t : Transaction} {err : SqlError} (h : r.transaction t = .error err) :
    FailsHere r (.transaction t) err
  | fragment {parts : List Fragment} {p : ParamRef} {err : SqlError}
    (member : .param p ∈ parts) (h : r.Refuses p err) : FailsHere r (.verbatim parts) err

/-- The errors of the places in an expression. -/
def Expr.Errors (r : RenderContext) (e : Expr) (err : SqlError) : Prop :=
  e.Somewhere (·.FailsHere r err) (·.FailsHere r err)

/-- The errors of the places in a query. -/
def Query.Errors (r : RenderContext) (q : Query) (err : SqlError) : Prop :=
  q.Somewhere (·.FailsHere r err) (·.FailsHere r err)

/-- The errors of the places in a statement. -/
def Body.Errors (r : RenderContext) (b : Body) (err : SqlError) : Prop :=
  b.FailsHere r err ∨ b.Somewhere (·.FailsHere r err) (·.FailsHere r err)

section Tree

variable {r : RenderContext}

/-- Writing the expression fails just for the errors of its places. -/
def Expr.Explained (r : RenderContext) (e : Expr) : Prop := Risks (e.Errors r) (e.render r)

/-- Writing the query fails just for the errors of its places. -/
def Query.Explained (r : RenderContext) (q : Query) : Prop := Risks (q.Errors r) (q.render r)

theorem Expr.errors_iff {e : Expr} {err : SqlError} : e.Errors r err ↔ e.FailsHere r err ∨
    (∃ x ∈ e.parts, x.Errors r err) ∨ ∃ q ∈ e.queries, q.Errors r err := somewhere_iff

theorem Query.errors_iff {q : Query} {err : SqlError} : q.Errors r err ↔ q.FailsHere r err ∨
    (∃ x ∈ q.parts, x.Errors r err) ∨ ∃ q' ∈ q.queries, q'.Errors r err := somewhere_iff

/-- A parameter fails if it has to be written as a value and has none. -/
theorem RenderContext.risks_param (r : RenderContext) (p : ParamRef) :
    Risks (r.Refuses p) (r.param p) := by
  intro used
  have run : ((r.param p).run.run used).1 =
      (r.paramText p used).map fun text => [Mark.text text] := by
    change (((liftM (r.paramText p used) : Render String) >>= fun text =>
      record p.key.display >>= fun _ => pure [Mark.text text]).run.run used).1 = _
    rw [run_bind]
    cases r.paramText p used <;> rfl
  rw [run, paramText]
  cases bound : p.nullBound with
  | true => exact fun err refused => by cases bound.symm.trans refused.1
  | false =>
    cases style : r.settings.style with
    | inline =>
      cases value : r.resolve p with
      | ok v => exact fun err refused => by cases value.symm.trans refused.2.2
      | error err => exact ⟨bound, style, value⟩
    | _ => exact fun err refused => by cases style.symm.trans refused.2.1

/-- A query by itself fails only because the dialect does not have something. -/
theorem Query.unsupported_of_fails (q : Query) {err : SqlError} (h : q.FailsHere r err) :
    ∃ what, err = .render (.unsupported what r.dialect) := by
  rcases h with failed | ⟨-, -, failed⟩ | failed | ⟨-, failed⟩
  · exact (r.gates_checkDistinctOn _).unsupported err failed
  · exact (r.gates_checkJoin _).unsupported err failed
  · exact (r.gates_checkSetOp _).unsupported err failed
  · exact (r.gates_branch _ _ _ _).unsupported err failed

/-! ## Expressions -/

namespace Expr

theorem risks_renderOption {o : Option Expr} (h : ∀ e ∈ o.toList, e.Explained r) :
    Risks (fun err => ∃ e ∈ o.toList, e.Errors r err) (renderOption r o) := by
  cases o with
  | none => exact risks_nil none
  | some e =>
    rw [renderOption]
    exact risks_singleton (.map some (h e (by simp)))

theorem risks_renderAll {es : List Expr} (h : ∀ e ∈ es, e.Explained r) :
    Risks (fun err => ∃ e ∈ es, e.Errors r err) (renderAll r es) := by
  rw [renderAll_eq_mapM]
  exact risks_mapM h

theorem risks_renderOperands {op : Operator} {es : List Expr} (h : ∀ e ∈ es, e.Explained r) :
    Risks (fun err => ∃ e ∈ es, e.Errors r err) (renderOperands r op es) := by
  rw [renderOperands_eq_mapM]
  exact risks_mapM fun e he => .map _ (h e he)

theorem risks_renderArms {arms : List (Expr × Expr)}
    (h : ∀ e ∈ arms.flatMap fun arm => [arm.1, arm.2], e.Explained r) :
    Risks (fun err => ∃ e ∈ arms.flatMap fun arm => [arm.1, arm.2], e.Errors r err)
      (renderArms r arms) := by
  induction arms with
  | nil => exact risks_nil []
  | cons arm arms ih =>
    obtain ⟨condition, result⟩ := arm
    rw [List.flatMap_cons] at h
    obtain ⟨both, tail⟩ := List.forall_mem_append.1 h
    have first := both condition (by simp)
    have second := both result (by simp)
    rw [renderArms]
    exact Risks.cons first fun w => Risks.cons second fun t => .map _ (ih tail)

theorem errors_subquery {q : Query} {err : SqlError} :
    (subquery q).Errors r err ↔ q.Errors r err := by
  have here : ¬ (subquery q).FailsHere r err := by rintro ⟨⟩
  simp [errors_iff (e := subquery q), here, parts, queries]

/-- A query in place of an expression is written as the query. -/
theorem explained_subquery {q : Query} : (subquery q).Explained r ↔ q.Explained r := by
  have render : Expr.render r (subquery q) = parens <$> q.render r := by
    rw [Expr.render.eq_def]
    dsimp only
    rw [bind_pure_comp]
  have same : (subquery q).Errors r = q.Errors r := funext fun err => propext errors_subquery
  rw [Explained, same, render, risks_map]
  rfl

theorem errors_operation {op : Operator} {operands : List Expr} {err : SqlError} :
    (operation op operands).Errors r err ↔ r.checkOperator op = .error err ∨
      (op.isWritten operands.length = false ∧ err = .render (.operandCount op operands.length)) ∨
        ∃ e ∈ operands, e.Errors r err := by
  have here : (operation op operands).FailsHere r err ↔ r.checkOperator op = .error err ∨
      op.isWritten operands.length = false ∧ err = .render (.operandCount op operands.length) := by
    refine ⟨?_, ?_⟩
    · rintro (_ | h | h)
      · exact .inl h
      · exact .inr ⟨h, rfl⟩
    · rintro (h | ⟨h, rfl⟩)
      · exact .operator h
      · exact .operands h
  simp [errors_iff (e := operation op operands), here, parts, queries, or_assoc]

/-- Operands that can be written fail for their own errors only. -/
theorem risks_operands {α : Type} {op : Operator} {operands : List Expr} {c : Render α}
    (h : Risks (fun err => ∃ e ∈ operands, e.Errors r err) c)
    (written : op.isWritten operands.length) :
    Risks (fun err => (op.isWritten operands.length = false ∧
      err = .render (.operandCount op operands.length)) ∨ ∃ e ∈ operands, e.Errors r err) c :=
  h.congr fun err => by simp [written]

/-- An operation fails for its operator, for the number of its operands or for one of them. -/
theorem explained_operation {op : Operator} {operands : List Expr}
    (h : ∀ e ∈ operands, e.Explained r) : (operation op operands).Explained r := by
  rw [Explained, Expr.render.eq_def]
  refine Risks.congr ((accounts_self (r.checkOperator op)).risks fun _ => ?_)
    fun err => errors_operation.symm
  split
  case h_1 e shape | h_2 e shape | h_3 e shape | h_4 e shape =>
    exact risks_operands (risks_singleton (.map _ (h e (by simp))))
      (by simp [Operator.isWritten, shape])
  case h_5 e list shape =>
    obtain ⟨operand, others⟩ := List.forall_mem_cons.1 h
    refine risks_operands (Risks.cons operand fun p => ?_) ?_
    · dsimp only
      split
      · rename_i q
        have query := explained_subquery.1 (others _ (List.mem_singleton_self _))
        exact (Risks.map _ query).congr fun err => by simp [errors_subquery]
      · exact .map _ (risks_map.2 (risks_renderAll others))
    · cases list <;> simp [Operator.isWritten, shape]
  case h_6 e low high shape =>
    simp only [List.forall_mem_cons] at h
    exact risks_operands (Risks.cons h.1 fun p => Risks.cons h.2.1 fun lowest =>
      risks_singleton (.map _ h.2.2.1)) (by simp [Operator.isWritten])
  case h_7 first second others _ _ =>
    simp only [List.forall_mem_cons] at h
    exact risks_operands (Risks.cons h.1 fun p => Risks.cons h.2.1 fun q =>
      .map _ (risks_renderOperands h.2.2)) (by simp [Operator.isWritten])
  case h_8 operands _ _ chain _ _ _ _ _ _ =>
    have unwritten : op.isWritten operands.length = false := by
      rcases operands with _ | ⟨e, _ | ⟨e', es⟩⟩
      · rfl
      · cases shape : op.shape <;> simp_all [Operator.isWritten]
      · exact absurd rfl (chain e e' es)
    exact fun used => .inl ⟨unwritten, rfl⟩

/-- Where an expression has no errors of its own, its errors are those of what stands below it. -/
theorem errors_below {e : Expr} {err : SqlError} (here : ¬ e.FailsHere r err) :
    e.Errors r err ↔ (∃ x ∈ e.parts, x.Errors r err) ∨ ∃ q ∈ e.queries, q.Errors r err :=
  errors_iff.trans (or_iff_right here)

theorem explained_call {function : String} {distinct : Bool} {args : List Expr}
    (h : ∀ e ∈ args, e.Explained r) : (call function distinct args).Explained r := by
  have errors (err : SqlError) :
      (∃ e ∈ args, e.Errors r err) ↔ (call function distinct args).Errors r err := by
    have here : ¬ (call function distinct args).FailsHere r err := by rintro ⟨⟩
    simp [errors_below here, parts, queries]
  rw [Explained, Expr.render.eq_def]
  refine Risks.congr ?_ errors
  dsimp only
  split
  · rename_i q
    have query := explained_subquery.1 (h _ (List.mem_singleton_self _))
    split
    all_goals exact (Risks.map _ query).congr fun err => by simp [errors_subquery]
  · exact .map _ (risks_renderAll h)

/-- A parameter fails if it has to be written as a value and has none. -/
theorem explained_param (p : ParamRef) : (param p).Explained r := by
  have errors (err : SqlError) : r.Refuses p err ↔ (param p).Errors r err := by
    have here : (param p).FailsHere r err ↔ r.Refuses p err := by
      refine ⟨?_, .param⟩
      rintro ⟨refused⟩
      exact refused
    simp [errors_iff (e := param p), here, parts, queries]
  rw [Explained, Expr.render.eq_def]
  exact (risks_param r p).congr errors

/-- Writing an expression fails for an error of it, if this is so of what stands directly below. -/
theorem explained {e : Expr} (hparts : ∀ x ∈ e.parts, x.Explained r)
    (hqueries : ∀ q ∈ e.queries, q.Explained r) : e.Explained r := by
  have leaf {e : Expr} (written : Risks (fun _ => False) (e.render r))
      (here : ∀ err, ¬ e.FailsHere r err) (noParts : e.parts = []) (noQueries : e.queries = []) :
      e.Explained r :=
    written.congr fun err => by simp [errors_below (here err), noParts, noQueries]
  cases e with
  | literal l =>
    refine leaf ?_ (by rintro err ⟨⟩) rfl rfl
    rw [Expr.render.eq_def]
    exact risks_pure _
  | name i =>
    refine leaf ?_ (by rintro err ⟨⟩) rfl rfl
    rw [Expr.render.eq_def]
    exact risks_pure _
  | wildcard t =>
    refine leaf ?_ (by rintro err ⟨⟩) rfl rfl
    rw [Expr.render.eq_def]
    cases t <;> exact risks_pure _
  | param p => exact explained_param p
  | call function distinct args => exact explained_call hparts
  | operation op operands => exact explained_operation hparts
  | subquery q => exact explained_subquery.2 (hqueries q (List.mem_singleton_self q))
  | cases base arms otherwise =>
    simp only [parts, List.forall_mem_append] at hparts
    obtain ⟨⟨hbase, harms⟩, hotherwise⟩ := hparts
    rw [Explained, Expr.render.eq_def]
    refine ((risks_renderOption hbase).append fun base => (risks_renderArms harms).append
      fun arms => .map _ (risks_renderOption hotherwise)).congr fun err => ?_
    have here : ¬ (Expr.cases base arms otherwise).FailsHere r err := by rintro ⟨⟩
    simp [errors_below here, parts, queries]
  | cast e type =>
    rw [Explained, Expr.render.eq_def]
    refine (Risks.map _ (hparts e (List.mem_singleton_self e))).congr fun err => ?_
    have here : ¬ (Expr.cast e type).FailsHere r err := by rintro ⟨⟩
    simp [errors_below here, parts, queries]

end Expr

/-! ## Queries -/

theorem Column.risks_renderAll {cs : List Column} (h : ∀ e ∈ cs.map (·.expr), e.Explained r) :
    Risks (fun err => ∃ e ∈ cs.map (·.expr), e.Errors r err) (Column.renderAll r cs) := by
  rw [renderAll_eq_mapM]
  have row : Risks (fun err => ∃ c ∈ cs, c.expr.Errors r err) _ := risks_mapM fun c hc =>
    .map (r.labelled · c.label) (h c.expr (List.mem_map_of_mem hc))
  exact row.congr fun err => by simp

theorem OrderItem.risks_renderAll {os : List OrderItem}
    (h : ∀ e ∈ os.map (·.expr), e.Explained r) :
    Risks (fun err => ∃ e ∈ os.map (·.expr), e.Errors r err) (OrderItem.renderAll r os) := by
  rw [renderAll_eq_mapM]
  have row : Risks (fun err => ∃ o ∈ os, o.expr.Errors r err) _ := risks_mapM fun o ho =>
    .map (sortKey · o.order o.collation) (h o.expr (List.mem_map_of_mem ho))
  exact row.congr fun err => by simp

/-- Whether a branch can be written does not depend on what is written. -/
theorem RenderContext.accounts_branch (r : RenderContext) (op : SetOp) (n : Nat) (q : Query)
    (p : Phrase) : Accounts (fun err => r.branch op n q [] = .error err) (r.branch op n q p) := by
  unfold branch
  split
  · rintro err ⟨⟩
  · split
    · rintro err ⟨⟩
    · split
      · rintro err ⟨⟩
      · rfl

/-- The branches from index `n` on fail where they stand, or for what they are. -/
theorem Query.risks_renderBranches {op : SetOp} {qs : List Query} (n : Nat)
    (h : ∀ q ∈ qs, q.Explained r) :
    Risks (fun err => (∃ k q, qs[k]? = some q ∧ r.branch op (n + k) q [] = .error err) ∨
      ∃ q ∈ qs, q.Errors r err) (renderBranches r op n qs) := by
  induction qs generalizing n with
  | nil => exact (risks_pure []).congr fun err => by simp
  | cons q qs ih =>
    obtain ⟨head, tail⟩ := List.forall_mem_cons.1 h
    rw [renderBranches]
    refine (Risks.bind head fun p => (accounts_branch r op n q p).risks fun p =>
      .map _ (ih (n + 1) tail)).congr fun err => ?_
    have stands : (∃ k q', (q :: qs)[k]? = some q' ∧ r.branch op (n + k) q' [] = .error err) ↔
        r.branch op n q [] = .error err ∨
          ∃ k q', qs[k]? = some q' ∧ r.branch op (n + 1 + k) q' [] = .error err := by
      rw [← Nat.or_exists_add_one]
      simp [Nat.add_assoc, Nat.add_comm 1]
    rw [stands, List.exists_mem_cons_iff, or_left_comm, or_assoc]
    exact or_congr_right or_left_comm

/-- How a target is written. -/
def Target.part (r : RenderContext) (t : Target) : Render Phrase :=
  match t.rows with
  | .table i => return r.labelledTarget (r.qualified i) t.label
  | .subquery q => do return r.labelledTarget (parens (← q.render r)) t.label

/-- How a join is written. -/
def Join.part (r : RenderContext) (j : Join) : JoinParts :=
  { position := j.position
    kind := j.kind
    condition :=
      match j.condition with
      | .none => pure []
      | .predicate e => do return [.blank, .text "ON", .blank] ++ (← e.render r)
      | .columns names => pure ([.blank, .text "USING", .blank] ++
          parens (commas (names.map fun n => [r.name n]))) }

theorem Target.parts_eq_map (ts : List Target) : Target.parts r ts = ts.map (part r) := by
  induction ts with
  | nil => rfl
  | cons t ts ih =>
    obtain ⟨rows, label⟩ := t
    cases rows <;> rw [parts, ih] <;> rfl

theorem Join.parts_eq_map (js : List Join) : Join.parts r js = js.map (part r) := by
  induction js with
  | nil => rfl
  | cons j js ih =>
    obtain ⟨kind, position, condition⟩ := j
    cases condition <;> rw [parts, ih] <;> rfl

/-- The errors of the query that a target reads. -/
def Target.Errors (r : RenderContext) (t : Target) (err : SqlError) : Prop :=
  ∃ q ∈ t.rows.query?, q.Errors r err

/-- The errors of a join and of its condition. -/
def Join.Errors (r : RenderContext) (j : Join) (err : SqlError) : Prop :=
  r.checkJoin j.kind = .error err ∨ ∃ e ∈ j.condition.expr?, e.Errors r err

theorem Target.risks_part {t : Target} (h : ∀ q ∈ t.rows.query?, q.Explained r) :
    Risks (t.Errors r) (t.part r) := by
  obtain ⟨rows, label⟩ := t
  cases rows with
  | table i => exact (risks_pure _).congr fun err => by simp [Errors, TableSource.query?]
  | subquery q =>
    exact (Risks.map _ (h q rfl)).congr fun err => by simp [Errors, TableSource.query?]

theorem Join.risks_part {j : Join} (h : ∀ e ∈ j.condition.expr?, e.Explained r) :
    Risks (fun err => ∃ e ∈ j.condition.expr?, e.Errors r err) (j.part r).condition := by
  obtain ⟨kind, position, condition⟩ := j
  cases condition with
  | none => exact (risks_pure _).congr fun err => by simp [JoinCondition.expr?]
  | predicate e => exact (Risks.map _ (h e rfl)).congr fun err => by simp [JoinCondition.expr?]
  | columns names => exact (risks_pure _).congr fun err => by simp [JoinCondition.expr?]

namespace FromClause

variable {f : FromClause}

/-- The targets from index `n + 1` on are written with the joins from index `n` on. -/
theorem risks_joinTargets (ordered : f.Ordered) (ts : List Target) (n : Nat)
    (length : ts.length = (f.joins.drop n).length)
    (htargets : ∀ t ∈ ts, Risks (t.Errors r) (t.part r))
    (hjoins : ∀ j ∈ f.joins,
      Risks (fun err => ∃ e ∈ j.condition.expr?, e.Errors r err) (j.part r).condition) :
    Risks (fun err => (∃ t ∈ ts, t.Errors r err) ∨ ∃ j ∈ f.joins.drop n, j.Errors r err)
      (r.joinTargets (f.joins.map (Join.part r)) (n + 1) (ts.map (Target.part r))) := by
  induction ts generalizing n with
  | nil =>
    rw [List.length_eq_zero_iff.1 length.symm]
    exact (risks_pure _).congr fun err => by simp
  | cons t ts ih =>
    obtain ⟨j, inside, here, drop⟩ : ∃ j, ∃ _ : n < f.joins.length, f.joins[n]? = some j ∧
        f.joins.drop n = j :: f.joins.drop (n + 1) := by
      rw [List.length_drop, List.length_cons] at length
      have inside : n < f.joins.length := by omega
      exact ⟨_, inside, List.getElem?_eq_getElem inside, List.drop_eq_getElem_cons inside⟩
    have found : (f.joins.map (Join.part r)).find? (·.position == n + 1) = some (j.part r) := by
      rw [List.find?_map]
      exact congrArg (Option.map (Join.part r)) ((ordered.find?_position n).trans here)
    rw [drop, List.length_cons, List.length_cons] at length
    obtain ⟨target, targets⟩ := List.forall_mem_cons.1 htargets
    have condition := hjoins j (List.mem_of_getElem? here)
    have later : (n + 1 == 0) = false := rfl
    rw [List.map_cons, joinTargets, found, drop]
    simp only [later, Bool.false_eq_true, if_false, pure_bind]
    refine (target.bind fun p => (accounts_self (r.checkJoin j.kind)).risks fun _ =>
      condition.bind fun c => .map _ (ih (n + 1) (Nat.succ.inj length) targets)).congr
        fun err => ?_
    rw [List.exists_mem_cons_iff, List.exists_mem_cons_iff, Join.Errors]
    simp only [or_assoc, or_left_comm]

/-- A FROM whose joins stand in order fails for a join, a condition or a target. -/
theorem risks_render (ordered : f.Ordered) (hparts : ∀ e ∈ f.parts, e.Explained r)
    (hqueries : ∀ q ∈ f.queries, q.Explained r) :
    Risks (fun err => (∃ j ∈ f.joins, r.checkJoin j.kind = .error err) ∨
      (∃ e ∈ f.parts, e.Errors r err) ∨ ∃ q ∈ f.queries, q.Errors r err) (f.render r) := by
  have conditions (j : Join) (hj : j ∈ f.joins) :
      Risks (fun err => ∃ e ∈ j.condition.expr?, e.Errors r err) (j.part r).condition :=
    Join.risks_part fun e he => hparts e (List.mem_filterMap.2 ⟨j, hj, he⟩)
  have rows (t : Target) (ht : t ∈ f.targets) : Risks (t.Errors r) (t.part r) :=
    Target.risks_part fun q hq => hqueries q (List.mem_filterMap.2 ⟨t, ht, hq⟩)
  obtain ⟨targets, joins⟩ := f
  obtain ⟨t, ts, rfl⟩ := List.exists_cons_of_length_eq_add_one ordered.targets
  obtain ⟨first, others⟩ := List.forall_mem_cons.1 rows
  have behind := risks_joinTargets ordered ts 0 (Nat.succ.inj ordered.targets) others conditions
  rw [render.eq_def]
  dsimp only
  rw [Target.parts_eq_map, Join.parts_eq_map, List.map_cons, joinTargets]
  simp only [BEq.rfl, if_true, pure_bind]
  refine (first.bind fun p => .map _ behind).congr fun err => ?_
  have joined : (∃ j ∈ joins, j.Errors r err) ↔ (∃ j ∈ joins, r.checkJoin j.kind = .error err) ∨
      ∃ e ∈ parts ⟨t :: ts, joins⟩, e.Errors r err := by
    simp only [Join.Errors, parts, List.mem_filterMap, Option.mem_def]
    grind
  have read : (∃ t' ∈ t :: ts, t'.Errors r err) ↔
      ∃ q ∈ queries ⟨t :: ts, joins⟩, q.Errors r err := by
    simp only [Target.Errors, queries, List.mem_filterMap, Option.mem_def]
    grind
  rw [List.drop_zero, joined, ← read, List.exists_mem_cons_iff]
  grind only

theorem risks_renderOption {o : Option FromClause} (ordered : ∀ f ∈ o, f.Ordered)
    (hparts : ∀ e ∈ (o.map (·.parts)).getD [], e.Explained r)
    (hqueries : ∀ q ∈ (o.map (·.queries)).getD [], q.Explained r) :
    Risks (fun err => (∃ f ∈ o, ∃ j ∈ f.joins, r.checkJoin j.kind = .error err) ∨
      (∃ e ∈ (o.map (·.parts)).getD [], e.Errors r err) ∨
        ∃ q ∈ (o.map (·.queries)).getD [], q.Errors r err) (renderOption r o) := by
  cases o with
  | none => exact (risks_pure none).congr fun err => by simp
  | some f =>
    rw [renderOption.eq_def]
    exact (Risks.map some (risks_render (ordered f rfl) hparts hqueries)).congr fun err => by simp

end FromClause

theorem Query.failsHere_select {s : Select} {err : SqlError} : (select s).FailsHere r err ↔
    r.checkDistinctOn s.distinctOn.isSome = .error err ∨
      ∃ f ∈ s.source, ∃ j ∈ f.joins, r.checkJoin j.kind = .error err := by
  refine ⟨?_, ?_⟩
  · rintro (h | ⟨source, member, h⟩)
    · exact .inl h
    · exact .inr ⟨_, source, _, member, h⟩
  · rintro (h | ⟨f, source, j, member, h⟩)
    · exact .distinctOn h
    · exact .join source member h

theorem Query.failsHere_compound {c : Compound} {err : SqlError} : (compound c).FailsHere r err ↔
    r.checkSetOp c.op = .error err ∨
      ∃ n q, c.branches[n]? = some q ∧ r.branch c.op n q [] = .error err := by
  refine ⟨?_, ?_⟩
  · rintro (_ | _ | h | ⟨at', h⟩)
    · exact .inl h
    · exact .inr ⟨_, _, at', h⟩
  · rintro (h | ⟨n, q, at', h⟩)
    · exact .setOp h
    · exact .branch at' h

/-- Writing a query fails for an error of it, if this is so of what stands directly below. -/
theorem Query.explained {q : Query} (ordered : q.JoinsOrdered)
    (hparts : ∀ x ∈ q.parts, x.Explained r) (hqueries : ∀ q' ∈ q.queries, q'.Explained r) :
    q.Explained r := by
  cases q with
  | select s =>
    obtain ⟨distinct, distinctOn, columns, source, condition, groupBy, having, orderBy, limit,
      offset⟩ := s
    simp only [parts, List.forall_mem_append] at hparts
    obtain ⟨⟨⟨⟨⟨⟨⟨⟨hon, hcolumns⟩, hsource⟩, hcondition⟩, hgroup⟩, hhaving⟩, horder⟩, hlimit⟩,
      hoffset⟩ := hparts
    rw [Explained, Query.render.eq_def]
    dsimp only
    rw [Select.render.eq_def]
    refine ((accounts_self (r.checkDistinctOn _)).risks fun _ =>
      (Expr.risks_renderOption hon).bind fun _ => (Column.risks_renderAll hcolumns).bind fun _ =>
      (FromClause.risks_renderOption ordered hsource hqueries).bind fun _ =>
      (Expr.risks_renderOption hcondition).append fun _ => (Expr.risks_renderAll hgroup).append
      fun _ => (Expr.risks_renderOption hhaving).append fun _ =>
      (OrderItem.risks_renderAll horder).append fun _ =>
      (Expr.risks_renderOption hlimit).append fun _ =>
      .map _ (Expr.risks_renderOption hoffset)).congr fun err => ?_
    rw [errors_iff, failsHere_select]
    simp only [parts, queries, List.append_assoc]
    generalize condition.toList ++ _ = behind
    simp only [List.mem_append, or_and_right, exists_or]
    grind only
  | compound c =>
    obtain ⟨op, branches, orderBy, limit, offset⟩ := c
    simp only [parts, List.forall_mem_append] at hparts
    obtain ⟨⟨horder, hlimit⟩, hoffset⟩ := hparts
    rw [Explained, Query.render.eq_def]
    dsimp only
    rw [Compound.render.eq_def]
    refine ((accounts_self (r.checkSetOp op)).risks fun _ =>
      (risks_renderBranches 0 hqueries).bind fun _ =>
      (OrderItem.risks_renderAll horder).append fun _ =>
      (Expr.risks_renderOption hlimit).append fun _ =>
      .map _ (Expr.risks_renderOption hoffset)).congr fun err => ?_
    rw [errors_iff, failsHere_compound]
    simp only [parts, queries, List.append_assoc, Nat.zero_add]
    grind only

/-- Writing a tree whose joins stand in order fails just for an error of a place in it. -/
theorem explained_of_ordered :
    (∀ e : Expr, e.Ordered → e.Explained r) ∧ ∀ q : Query, q.Ordered → q.Explained r := by
  refine tree_induction (fun e hes hqs h => ?_) fun q hes hqs h => ?_
  · exact Expr.explained (fun x hx => hes x hx (h.parts x hx))
      fun q hq => hqs q hq (h.queries q hq)
  · exact Query.explained h.here (fun x hx => hes x hx (h.parts x hx))
      fun q' hq' => hqs q' hq' (h.queries q' hq')

/-! ## Statements -/

namespace RenderContext

theorem risks_insertSource {s : InsertSource} (hparts : ∀ e ∈ s.parts, e.Explained r)
    (hqueries : ∀ q ∈ s.queries, q.Explained r) :
    Risks (fun err => (∃ e ∈ s.parts, e.Errors r err) ∨ ∃ q ∈ s.queries, q.Errors r err)
      (r.insertSource s) := by
  cases s with
  | values rows =>
    have row (row : List Expr) (hrow : row ∈ rows) : Risks (fun err => ∃ e ∈ row, e.Errors r err)
        (do return parens (commas (← Expr.renderAll r row))) :=
      .map _ (Expr.risks_renderAll fun e he => hparts e (List.mem_flatten.2 ⟨row, hrow, he⟩))
    refine (Risks.map _ (risks_mapM row)).congr fun err => ?_
    simp only [InsertSource.parts, InsertSource.queries, List.mem_flatten, List.not_mem_nil,
      false_and, exists_false, or_false]
    tauto
  | query q =>
    refine Risks.congr (hqueries q (List.mem_singleton_self q)) fun err => ?_
    simp [InsertSource.parts, InsertSource.queries]
  | defaultValues =>
    exact (risks_pure _).congr fun err => by simp [InsertSource.parts, InsertSource.queries]

theorem risks_condition {o : Option Expr} (h : ∀ e ∈ o.toList, e.Explained r) :
    Risks (fun err => ∃ e ∈ o.toList, e.Errors r err) (r.condition o) := by
  cases o with
  | none => exact risks_nil _
  | some e => exact risks_singleton (.map _ (h e (List.mem_singleton_self e)))

theorem risks_fragment (r : RenderContext) (part : Fragment) :
    Risks (fun err => ∃ p, part = .param p ∧ r.Refuses p err) (r.fragment part) := by
  cases part with
  | text t => exact (risks_pure _).congr fun err => by simp
  | param p => exact (risks_param r p).congr fun err => by simp

/-- Writing a statement whose joins stand in order fails just for an error of a place in it. -/
theorem risks_body {b : Body} (h : b.Ordered) : Risks (b.Errors r) (r.body b) := by
  have hparts (e : Expr) (he : e ∈ b.parts) : e.Explained r := explained_of_ordered.1 e (h.1 e he)
  have hqueries (q : Query) (hq : q ∈ b.queries) : q.Explained r :=
    explained_of_ordered.2 q (h.2 q hq)
  have below {b : Body} {err : SqlError} (here : ¬ b.FailsHere r err) : b.Errors r err ↔
      (∃ e ∈ b.parts, e.Errors r err) ∨ ∃ q ∈ b.queries, q.Errors r err := or_iff_right here
  cases b with
  | select s =>
    have query : Risks ((Query.select s).Errors r) (s.render r) := by
      have explained := hqueries (.select s) (List.mem_singleton_self _)
      rwa [Query.Explained, Query.render.eq_def] at explained
    refine query.congr fun err => ?_
    have here : ¬ (Body.select s).FailsHere r err := by rintro ⟨⟩
    simp [below here, Body.parts, Body.queries]
  | compound c =>
    have query : Risks ((Query.compound c).Errors r) (c.render r) := by
      have explained := hqueries (.compound c) (List.mem_singleton_self _)
      rwa [Query.Explained, Query.render.eq_def] at explained
    refine query.congr fun err => ?_
    have here : ¬ (Body.compound c).FailsHere r err := by rintro ⟨⟩
    simp [below here, Body.parts, Body.queries]
  | insert i =>
    refine (Risks.map _ (risks_insertSource hparts hqueries)).congr fun err => ?_
    have here : ¬ (Body.insert i).FailsHere r err := by rintro ⟨⟩
    exact (below here).symm
  | update u =>
    simp only [Body.parts, List.forall_mem_append] at hparts
    have assignments : Risks (fun err => ∃ a ∈ u.assignments, a.value.Errors r err)
        (u.assignments.mapM r.assignment) :=
      risks_mapM fun a ha => .map _ (hparts.1 a.value (List.mem_map.2 ⟨a, ha, rfl⟩))
    have here (err : SqlError) : (Body.update u).FailsHere r err ↔
        r.updateWords u.onConflict = .error err := by
      refine ⟨?_, .update⟩
      rintro ⟨h⟩
      exact h
    refine ((accounts_self (r.updateWords u.onConflict)).risks fun _ =>
      assignments.bind fun _ => .map _ (risks_condition hparts.2)).congr fun err => ?_
    simp [Body.Errors, Body.Somewhere, here, Body.parts, Body.queries, Expr.Errors, or_and_right,
      exists_or]
  | delete d =>
    refine (Risks.map _ (risks_condition hparts)).congr fun err => ?_
    have here : ¬ (Body.delete d).FailsHere r err := by rintro ⟨⟩
    simp [below here, Body.parts, Body.queries]
  | transaction t =>
    refine (risks_lift (accounts_self (r.transaction t))).congr fun err => ?_
    have here : (Body.transaction t).FailsHere r err ↔ r.transaction t = .error err := by
      refine ⟨?_, .transaction⟩
      rintro ⟨⟩
      assumption
    simp [Body.Errors, Body.Somewhere, here, Body.parts, Body.queries]
  | verbatim parts =>
    refine (Risks.map _ (risks_mapM fun part _ => risks_fragment r part)).congr fun err => ?_
    have here : (Body.verbatim parts).FailsHere r err ↔
        ∃ p, .param p ∈ parts ∧ r.Refuses p err := by
      refine ⟨?_, ?_⟩
      · rintro ⟨⟩
        exact ⟨_, by assumption, by assumption⟩
      · rintro ⟨p, member, refused⟩
        exact .fragment member refused
    simp only [Body.Errors, Body.Somewhere, here, Body.parts, Body.queries, List.not_mem_nil,
      false_and, exists_false, or_false]
    grind

end RenderContext

end Tree

end BoundSql
