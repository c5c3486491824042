import BoundSql.Render.Statement
import Mathlib.Data.List.Forall2

/-!
# What writing gives

`Render.Gives` says that a computation succeeds, what it yields and which names are recorded behind
it. The rules below take a computation apart into its steps.
-/

namespace BoundSql

namespace Render

variable {α β : Type} {used used' : List String}

/-- With the names `used` recorded, the computation yields `a` and leaves the names `used'`. -/
def Gives (c : Render α) (used : List String) (a : α) (used' : List String) : Prop :=
  c.run.run used = (.ok a, used')

@[simp] theorem gives_pure {a b : α} : Gives (pure a) used b used' ↔ b = a ∧ used' = used := by
  refine ⟨fun h => ?_, fun h => by rw [h.1, h.2]; rfl⟩
  cases h
  exact ⟨rfl, rfl⟩

/-- The second computation runs behind the first, unless that fails. -/
theorem run_bind (c : Render α) (f : α → Render β) (used : List String) :
    (c >>= f).run.run used = match c.run.run used with
      | (.ok a, more) => (f a).run.run more
      | (.error e, more) => (.error e, more) := by
  change (ExceptT.bind c f).run.run used = _
  simp only [ExceptT.bind, ExceptT.run, ExceptT.mk, StateT.run, bind, StateT.bind, ExceptT.bindCont]
  generalize c used = out
  obtain ⟨out, more⟩ := out
  cases out <;> rfl

@[simp] theorem gives_bind {c : Render α} {f : α → Render β} {b : β} :
    Gives (c >>= f) used b used' ↔ ∃ a more, Gives c used a more ∧ Gives (f a) more b used' := by
  unfold Gives
  rw [run_bind]
  refine ⟨fun h => ?_, fun ⟨a, more, ha, hb⟩ => by rw [ha]; exact hb⟩
  generalize c.run.run used = out at h ⊢
  obtain ⟨out, more⟩ := out
  cases out with
  | error e => cases h
  | ok a => exact ⟨a, more, rfl, h⟩

@[simp] theorem gives_map {c : Render α} {f : α → β} {b : β} :
    Gives (f <$> c) used b used' ↔ ∃ a, Gives c used a used' ∧ b = f a := by
  rw [← bind_pure_comp, gives_bind]
  simp only [gives_pure]
  refine ⟨?_, fun ⟨a, ha, hb⟩ => ⟨a, used', ha, hb, rfl⟩⟩
  rintro ⟨a, more, ha, rfl, rfl⟩
  exact ⟨a, ha, rfl⟩

/-- The last step puts the result together. -/
theorem gives_bind_pure {c : Render α} {f : α → β} {b : β} :
    Gives (c >>= fun a => pure (f a)) used b used' ↔ ∃ a, Gives c used a used' ∧ b = f a := by
  rw [bind_pure_comp, gives_map]

/-- A step that may fail but records nothing. -/
@[simp] theorem gives_lift {c : Except SqlError α} {a : α} :
    Gives (liftM c) used a used' ↔ c = .ok a ∧ used' = used := by
  cases c with
  | error e =>
    refine ⟨fun h => ?_, fun ⟨h, _⟩ => ?_⟩ <;> cases h
  | ok b =>
    refine ⟨fun h => ?_, fun h => by rw [h.2]; cases h.1; rfl⟩
    cases h
    exact ⟨rfl, rfl⟩

@[simp] theorem gives_throw {e : SqlError} {a : α} : ¬ Gives (throw e) used a used' :=
  fun h => nomatch h

@[simp] theorem gives_recorded {names : List String} :
    Gives recorded used names used' ↔ names = used ∧ used' = used := by
  refine ⟨fun h => ?_, fun h => by rw [h.1, h.2]; rfl⟩
  cases h
  exact ⟨rfl, rfl⟩

@[simp] theorem gives_record {name : String} {u : Unit} :
    Gives (record name) used u used' ↔ used' = used ++ [name] := by
  refine ⟨fun h => ?_, fun h => by rw [h]; rfl⟩
  cases h
  rfl

/-! ## Computations in a row -/

/-- What is given by one computation after the other. -/
theorem forall₂_of_gives_mapM {R : α → β → Prop} {f : α → Render β} {xs : List α} {ys : List β}
    (h : ∀ x ∈ xs, ∀ used y used', Gives (f x) used y used' → R x y)
    (given : Gives (xs.mapM f) used ys used') : List.Forall₂ R xs ys := by
  induction xs generalizing used ys with
  | nil =>
    rw [List.mapM_nil] at given
    obtain ⟨rfl, -⟩ := gives_pure.1 given
    exact .nil
  | cons x xs ih =>
    simp only [List.mapM_cons, gives_bind, gives_pure] at given
    obtain ⟨y, _, hy, ys, _, hys, rfl, rfl⟩ := given
    exact .cons (h x List.mem_cons_self _ _ _ hy)
      (ih (fun x hx => h x (List.mem_cons_of_mem _ hx)) hys)

theorem forall_of_gives_mapM {P : β → Prop} {f : α → Render β} {xs : List α} {ys : List β}
    (h : ∀ x ∈ xs, ∀ used y used', Gives (f x) used y used' → P y)
    (given : Gives (xs.mapM f) used ys used') : ∀ y ∈ ys, P y := by
  have all : List.Forall₂ (fun _ y => P y) xs ys := forall₂_of_gives_mapM h given
  clear h given
  induction all with
  | nil => simp
  | cons hy _ ih => exact List.forall_mem_cons.2 ⟨hy, ih⟩

/-- Computations that succeed and record no name do so in a row. -/
theorem exists_gives_mapM {f : α → Render β} {xs : List α}
    (h : ∀ x ∈ xs, ∀ used, ∃ y, Gives (f x) used y used) (used : List String) :
    ∃ ys, Gives (xs.mapM f) used ys used := by
  induction xs with
  | nil => exact ⟨[], gives_pure.2 ⟨rfl, rfl⟩⟩
  | cons x xs ih =>
    obtain ⟨y, hy⟩ := h x List.mem_cons_self used
    obtain ⟨ys, hys⟩ := ih fun x hx => h x (List.mem_cons_of_mem _ hx)
    rw [List.mapM_cons]
    exact ⟨_, gives_bind.2 ⟨y, _, hy, gives_bind_pure.2 ⟨ys, hys, rfl⟩⟩⟩

end Render

open Phrase Render RenderContext

section Rows

variable (r : RenderContext)

theorem Expr.renderAll_eq_mapM (es : List Expr) : renderAll r es = es.mapM (Expr.render r) := by
  induction es with
  | nil => rfl
  | cons e es ih => rw [renderAll, List.mapM_cons, ih]

theorem Expr.renderOperands_eq_mapM (op : Operator) (es : List Expr) :
    renderOperands r op es = es.mapM fun e => do return e.asOperand op true (← e.render r) := by
  induction es with
  | nil => rfl
  | cons e es ih =>
    rw [renderOperands, List.mapM_cons, ih, bind_assoc]
    simp only [pure_bind]

theorem Column.renderAll_eq_mapM (cs : List Column) :
    renderAll r cs = cs.mapM fun c => do return r.labelled (← c.expr.render r) c.label := by
  induction cs with
  | nil => rfl
  | cons c cs ih =>
    obtain ⟨e, label⟩ := c
    rw [renderAll, List.mapM_cons, ih, bind_assoc]
    simp only [pure_bind]

theorem OrderItem.renderAll_eq_mapM (os : List OrderItem) :
    renderAll r os = os.mapM fun o => do
      return sortKey (← o.expr.render r) o.order o.collation := by
  induction os with
  | nil => rfl
  | cons o os ih =>
    obtain ⟨e, order, collation⟩ := o
    rw [renderAll, List.mapM_cons, ih, bind_assoc]
    simp only [pure_bind]

end Rows

/-- What an operation is written as, by the way in which the operator stands to its operands. -/
inductive Expr.OperationGives (r : RenderContext) (op : Operator) (used used' : List String) :
    List Expr → Phrase → Prop
  | prefixWord {e p} (shape : op.shape = .prefixWord) (operand : Gives (e.render r) used p used') :
    OperationGives r op used used' [e] ([op.mark, .blank] ++ e.asOperand op true p)
  | prefixSign {e p} (shape : op.shape = .prefixSign) (operand : Gives (e.render r) used p used') :
    OperationGives r op used used' [e] (op.mark :: e.asOperand op true p)
  | negation {e p} (shape : op.shape = .minus) (operand : Gives (e.render r) used p used') :
    OperationGives r op used used' [e] (negated (e.asOperand .bitNot true p))
  | postfixWords {e p} (shape : op.shape = .postfixWords)
    (operand : Gives (e.render r) used p used') :
    OperationGives r op used used' [e] (e.asOperand op false p ++ [.blank, op.mark])
  | membershipQuery {e q p p' more} (shape : op.shape = .membership)
    (operand : Gives (e.render r) used p more) (query : Gives (q.render r) more p' used') :
    OperationGives r op used used' [e, .subquery q]
      (e.asOperand op false p ++ [.blank, op.mark, .blank] ++ parens p')
  | membershipList {e list p ps more} (shape : op.shape = .membership)
    (noQuery : ∀ q, list ≠ [.subquery q]) (operand : Gives (e.render r) used p more)
    (items : Gives (Expr.renderAll r list) more ps used') :
    OperationGives r op used used' (e :: list)
      (e.asOperand op false p ++ [.blank, op.mark, .blank] ++ parens (commas ps))
  | range {e e₁ e₂ p p₁ p₂ more more₁} (shape : op.shape = .range)
    (operand : Gives (e.render r) used p more) (low : Gives (e₁.render r) more p₁ more₁)
    (high : Gives (e₂.render r) more₁ p₂ used') :
    OperationGives r op used used' [e, e₁, e₂]
      (e.asOperand op false p ++ [.blank, op.mark, .blank] ++ e₁.asOperand op true p₁ ++
        [.blank, .text "AND", .blank] ++ e₂.asOperand op true p₂)
  | chain {e e₁ es p p₁ ps more more₁} (noList : op.shape ≠ .membership)
    (noRange : op.shape = .range → ∀ e₂, es ≠ [e₂]) (first : Gives (e.render r) used p more)
    (second : Gives (e₁.render r) more p₁ more₁)
    (others : Gives (Expr.renderOperands r op es) more₁ ps used') :
    OperationGives r op used used' (e :: e₁ :: es)
      (RenderContext.chain op (e.asOperand op false p) (e₁.asOperand op true p₁ :: ps))

/-- What an operation is written as is what its shape says. -/
theorem Expr.operationGives_of_gives {r : RenderContext} {op : Operator} {operands : List Expr}
    {used used' : List String} {p : Phrase}
    (h : Gives (Expr.render r (.operation op operands)) used p used') :
    r.checkOperator op = .ok () ∧ Expr.OperationGives r op used used' operands p := by
  rw [Expr.render.eq_def] at h
  dsimp only at h
  rw [gives_bind] at h
  simp only [gives_lift] at h
  obtain ⟨_, _, ⟨hcheck, rfl⟩, h⟩ := h
  refine ⟨hcheck, ?_⟩
  split at h
  case h_1 hshape =>
    obtain ⟨p, more, hp, h⟩ := gives_bind.1 h
    obtain ⟨rfl, rfl⟩ := gives_pure.1 h
    exact .prefixWord hshape hp
  case h_2 hshape =>
    obtain ⟨p, more, hp, h⟩ := gives_bind.1 h
    obtain ⟨rfl, rfl⟩ := gives_pure.1 h
    exact .prefixSign hshape hp
  case h_3 hshape =>
    obtain ⟨p, more, hp, h⟩ := gives_bind.1 h
    obtain ⟨rfl, rfl⟩ := gives_pure.1 h
    exact .negation hshape hp
  case h_4 hshape =>
    obtain ⟨p, more, hp, h⟩ := gives_bind.1 h
    obtain ⟨rfl, rfl⟩ := gives_pure.1 h
    exact .postfixWords hshape hp
  case h_5 list hshape =>
    obtain ⟨p, more, hp, h⟩ := gives_bind.1 h
    split at h
    · obtain ⟨p', more', hq, h⟩ := gives_bind.1 h
      obtain ⟨rfl, rfl⟩ := gives_pure.1 h
      exact .membershipQuery hshape hp hq
    · rename_i hlist
      obtain ⟨items, more', hitems, h⟩ := gives_bind.1 h
      obtain ⟨ps, hps, rfl⟩ := gives_map.1 hitems
      obtain ⟨rfl, rfl⟩ := gives_pure.1 h
      exact .membershipList hshape (fun q hq => hlist q hq) hp hps
  case h_6 hshape =>
    obtain ⟨p, more, hp, h⟩ := gives_bind.1 h
    obtain ⟨p₁, more₁, hlow, h⟩ := gives_bind.1 h
    obtain ⟨p₂, more₂, hhigh, h⟩ := gives_bind.1 h
    obtain ⟨rfl, rfl⟩ := gives_pure.1 h
    exact .range hshape hp hlow hhigh
  case h_7 hlist hrange =>
    obtain ⟨p, more, hp, h⟩ := gives_bind.1 h
    obtain ⟨p₁, more₁, hsecond, h⟩ := gives_bind.1 h
    obtain ⟨ps, more₂, hothers, h⟩ := gives_bind.1 h
    obtain ⟨rfl, rfl⟩ := gives_pure.1 h
    exact .chain hlist (fun hshape e₂ he => hrange e₂ hshape he) hp hsecond hothers
  case h_8 => exact absurd h gives_throw

/-- An operation is written as its shape says. -/
theorem Expr.OperationGives.gives {r : RenderContext} {op : Operator} {operands : List Expr}
    {used used' : List String} {p : Phrase} (h : Expr.OperationGives r op used used' operands p)
    (hcheck : r.checkOperator op = .ok ()) :
    Gives (Expr.render r (.operation op operands)) used p used' := by
  rw [Expr.render.eq_def]
  dsimp only
  rw [gives_bind]
  simp only [gives_lift]
  refine ⟨(), used, ⟨hcheck, rfl⟩, ?_⟩
  cases h with
  | prefixWord hshape hp =>
    rw [hshape]
    exact gives_bind.2 ⟨_, _, hp, gives_pure.2 ⟨rfl, rfl⟩⟩
  | prefixSign hshape hp =>
    rw [hshape]
    exact gives_bind.2 ⟨_, _, hp, gives_pure.2 ⟨rfl, rfl⟩⟩
  | negation hshape hp =>
    rw [hshape]
    exact gives_bind.2 ⟨_, _, hp, gives_pure.2 ⟨rfl, rfl⟩⟩
  | postfixWords hshape hp =>
    rw [hshape]
    exact gives_bind.2 ⟨_, _, hp, gives_pure.2 ⟨rfl, rfl⟩⟩
  | membershipQuery hshape hp hq =>
    rw [hshape]
    exact gives_bind.2 ⟨_, _, hp, gives_bind.2 ⟨_, _, hq, gives_pure.2 ⟨rfl, rfl⟩⟩⟩
  | membershipList hshape hlist hp hps =>
    rw [hshape]
    refine gives_bind.2 ⟨_, _, hp, ?_⟩
    split
    · exact absurd rfl (hlist _)
    · exact gives_bind.2 ⟨_, _, gives_map.2 ⟨_, hps, rfl⟩, gives_pure.2 ⟨rfl, rfl⟩⟩
  | range hshape hp hlow hhigh =>
    rw [hshape]
    exact gives_bind.2 ⟨_, _, hp, gives_bind.2 ⟨_, _, hlow,
      gives_bind.2 ⟨_, _, hhigh, gives_pure.2 ⟨rfl, rfl⟩⟩⟩⟩
  | chain hlist hrange hp hsecond hothers =>
    split
    case h_5 hshape _ => exact absurd hshape hlist
    case h_6 hshape heq =>
      obtain ⟨rfl, rfl, rfl⟩ : _ ∧ _ ∧ _ := by simpa using heq
      exact absurd rfl (hrange hshape _)
    case h_7 heq _ _ =>
      obtain ⟨rfl, rfl, rfl⟩ : _ ∧ _ ∧ _ := by simpa using heq
      exact gives_bind.2 ⟨_, _, hp, gives_bind.2 ⟨_, _, hsecond,
        gives_bind.2 ⟨_, _, hothers, gives_pure.2 ⟨rfl, rfl⟩⟩⟩⟩
    all_goals simp_all

/-- Writing an operation checks the operator and writes the operands. -/
theorem Expr.gives_operation {r : RenderContext} {op : Operator} {operands : List Expr}
    {used used' : List String} {p : Phrase} :
    Gives (Expr.render r (.operation op operands)) used p used' ↔
      r.checkOperator op = .ok () ∧ Expr.OperationGives r op used used' operands p :=
  ⟨operationGives_of_gives, fun h => h.2.gives h.1⟩

/-- Writing a call whose arguments are not a single query. -/
theorem Expr.gives_call {r : RenderContext} {function : String} {distinct : Bool}
    {args : List Expr} {used used' : List String} {p : Phrase}
    (hquery : ∀ q, args ≠ [.subquery q]) :
    Gives (Expr.render r (.call function distinct args)) used p used' ↔
      ∃ ps, Gives (Expr.renderAll r args) used ps used' ∧ p = .text function ::
        parens ((if distinct then [.text "DISTINCT", .blank] else []) ++ commas ps) := by
  rw [Expr.render.eq_def]
  dsimp only
  split
  · exact absurd rfl (hquery _)
  · simp only [gives_bind, gives_pure]
    refine ⟨?_, fun ⟨ps, hps, hp⟩ => ⟨ps, used', hps, hp, rfl⟩⟩
    rintro ⟨ps, _, hps, rfl, rfl⟩
    exact ⟨ps, hps, rfl⟩

end BoundSql
