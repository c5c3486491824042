import BoundSql.Proofs.Grammar.Expression
import BoundSql.Proofs.Tree.Mapped
import BoundSql.Render.Expression

/-!
# Grouping of operands

An operand behind an operator stands without parentheses if it has the same operator and the
operator flattens. The text then goes on with the first operand of that operand, which need not
group the same way: `Expr.regrouped` is what the text of an expression says.
-/

namespace BoundSql

open Grammar

namespace Operator

theorem pos_of_acceptsOperands (op : Operator) {n : Nat} (h : op.acceptsOperands n) : 0 < n := by
  cases n with
  | zero => cases op <;> cases h
  | succ n => exact Nat.succ_pos n

/-- An operator that flattens has two operands or more. -/
theorem two_le_of_flattens (op : Operator) {n : Nat} (hflat : op.flattens)
    (h : op.acceptsOperands n) : 2 ≤ n := by
  cases op <;> simp_all [flattens, acceptsOperands, arity]

end Operator

namespace Expr

/-- The operator that decides whether the expression needs parentheses. A negation never does. -/
def outermost? : Expr → Option Operator
  | operation op operands => if op = .minus ∧ operands.length = 1 then none else some op
  | _ => none

theorem needsParens_eq (parent : Operator) (right : Bool) (e : Expr) :
    e.needsParens parent right = match e.outermost? with
      | none => false
      | some op => decide (op.precedence < parent.precedence) ||
          (right && op.precedence == parent.precedence && !(op == parent && parent.flattens)) := by
  cases e with
  | operation op operands =>
    simp only [needsParens, outermost?]
    by_cases h : op = .minus ∧ operands.length = 1
    · simp [h]
    · rw [if_neg h]
      have hor : (op == .minus && operands.length == 1) = false := by
        rw [Bool.eq_false_iff]
        simpa using h
      simp [hor]
  | _ => rfl

theorem needsParens_congr {a b : Expr} (h : a.outermost? = b.outermost?) (parent : Operator)
    (right : Bool) : a.needsParens parent right = b.needsParens parent right := by
  rw [needsParens_eq, needsParens_eq, h]

/-- How the text of `lhs`, the operator and the expression is read. The operator takes up the first
operand of equal precedence only. -/
def graft (op : Operator) (lhs : Expr) : Expr → Expr
  | operation op' (x :: xs) =>
    if op'.precedence = op.precedence ∧ ¬(op' = .minus ∧ xs = []) then
      xs.foldl (combine op') (graft op lhs x)
    else combine op lhs (operation op' (x :: xs))
  | e => combine op lhs e

/-- How the text of `lhs`, the operator and an operand behind it is read. -/
def attach (op : Operator) (lhs e : Expr) : Expr :=
  if e.needsParens op true then combine op lhs e else graft op lhs e

/-- How the text of an operation is read, its operands being read already. -/
def regroup : Expr → Expr
  | operation op (x :: y :: ys) =>
    if op.flattens then (y :: ys).foldl (attach op) x else operation op (x :: y :: ys)
  | e => e

/-- How the text of an expression is read. -/
def regrouped : Expr → Expr := mapped regroup

theorem regrouped_name (i : Identifier) : regrouped (name i) = name i := rfl

theorem regrouped_call (function : String) (distinct : Bool) (args : List Expr) :
    regrouped (call function distinct args) = call function distinct (args.map regrouped) :=
  mapped_call function distinct args

theorem regrouped_cases (base otherwise : Option Expr) (arms : List (Expr × Expr)) :
    regrouped (cases base arms otherwise) = cases (base.map regrouped)
      (arms.map fun arm => (regrouped arm.1, regrouped arm.2)) (otherwise.map regrouped) :=
  mapped_cases base otherwise arms

theorem regrouped_cast (e : Expr) (type : DataType) :
    regrouped (cast e type) = cast (regrouped e) type := rfl

theorem regroup_of_not_flattens {op : Operator} (hflat : op.flattens = false)
    (operands : List Expr) : regroup (operation op operands) = operation op operands := by
  unfold regroup
  split
  · rename_i heq
    cases heq
    rw [hflat]
    rfl
  · rfl

/-- The operands of an operator that does not flatten are read by themselves. -/
theorem regrouped_operation {op : Operator} (hflat : op.flattens = false) (operands : List Expr) :
    regrouped (operation op operands) = operation op (operands.map regrouped) := by
  rw [regrouped, mapped_operation, regroup_of_not_flattens hflat]

/-- The operands that an operand gives to a chain of the operator. -/
def links (op : Operator) : Expr → List Expr
  | operation op' operands => if op' = op then operands else [operation op' operands]
  | e => [e]

/-- Operators have as many operands as they accept. -/
def Counted : Expr → Prop
  | operation op operands => op.acceptsOperands operands.length
  | _ => True

/-- An operation has operands, and one that flattens has at least two. -/
def Solid (e : Expr) : Prop := ∀ op operands, e = operation op operands →
  operands ≠ [] ∧ (op.flattens → 2 ≤ operands.length)

section Grafting

variable {op op' : Operator} {lhs x y : Expr}

theorem combine_eq (op : Operator) (lhs rhs : Expr) : combine op lhs rhs =
    operation op ((if op.flattens then links op lhs else [lhs]) ++ [rhs]) := by
  cases lhs with
  | operation op' operands =>
    simp only [combine, links]
    by_cases hop : op' = op
    · subst hop
      cases op'.flattens <;> simp
    · cases op.flattens <;> simp [hop]
  | _ => cases h : op.flattens <;> simp [combine, links]

/-- Two operands under an operator are at least two. -/
theorem combine_operation (h : lhs.Solid) :
    ∃ operands, combine op lhs x = operation op operands ∧ 2 ≤ operands.length := by
  refine ⟨_, combine_eq op lhs x, ?_⟩
  cases hflat : op.flattens with
  | false => simp
  | true =>
    cases lhs with
    | operation op' operands =>
      have hne := List.length_pos_iff.2 (h op' operands rfl).1
      by_cases hop : op' = op
      · simpa [links, hop] using Nat.succ_le_of_lt hne
      · simp [links, hop]
    | _ => simp [links]

theorem solid_of_length {operands : List Expr} (h : 2 ≤ operands.length) :
    (operation op operands).Solid := by
  rintro op' operands' heq
  cases heq
  exact ⟨List.length_pos_iff.1 (by omega), fun _ => h⟩

theorem solid_combine (h : lhs.Solid) : (combine op lhs x).Solid := by
  obtain ⟨operands, hcombine, hlen⟩ : ∃ operands, combine op lhs x = operation op operands ∧
      2 ≤ operands.length := combine_operation h
  rw [hcombine]
  exact solid_of_length hlen

theorem solid_foldl_combine {xs : List Expr} (h : lhs.Solid) :
    (xs.foldl (combine op) lhs).Solid := by
  induction xs generalizing lhs with
  | nil => exact h
  | cons x xs ih => exact ih (solid_combine h)

theorem foldl_combine_operation {xs : List Expr} (hne : xs ≠ []) (h : lhs.Solid) :
    ∃ operands, xs.foldl (combine op) lhs = operation op operands ∧ 2 ≤ operands.length := by
  induction xs generalizing lhs with
  | nil => exact absurd rfl hne
  | cons x xs ih =>
    cases xs with
    | nil => exact combine_operation h
    | cons y ys => exact ih (by simp) (solid_combine h)

theorem graft_operation {xs : List Expr} (hprec : op'.precedence = op.precedence)
    (hminus : ¬(op' = .minus ∧ xs = [])) :
    graft op lhs (operation op' (x :: xs)) = xs.foldl (combine op') (graft op lhs x) := by
  rw [graft, if_pos ⟨hprec, hminus⟩]

theorem solid_graft (h : lhs.Solid) (e : Expr) : (graft op lhs e).Solid := by
  fun_induction graft op lhs e with
  | case1 op' x xs hop ih => exact solid_foldl_combine ih
  | case2 => exact solid_combine h
  | case3 => exact solid_combine h

/-- An expression of another precedence is taken up as a whole. -/
theorem graft_of_outermost {e : Expr}
    (h : ∀ op', e.outermost? = some op' → op'.precedence ≠ op.precedence) :
    graft op lhs e = combine op lhs e := by
  fun_cases graft op lhs e with
  | case1 op' x xs hop =>
    refine absurd hop.1 (h op' ?_)
    have hlen : ¬(op' = .minus ∧ (x :: xs).length = 1) := by
      simpa using hop.2
    rw [outermost?, if_neg hlen]
  | case2 => rfl
  | case3 => rfl

theorem graft_combine (hprec : op'.precedence = op.precedence) (hx : x.Solid) :
    graft op lhs (combine op' x y) = combine op' (graft op lhs x) y := by
  by_cases hsame : op'.flattens ∧ ∃ operands, x = operation op' operands
  · obtain ⟨hflat, operands, rfl⟩ := hsame
    have hminus : op' ≠ .minus := by
      rintro rfl
      cases hflat
    cases operands with
    | nil => exact absurd rfl (hx op' [] rfl).1
    | cons z zs =>
      have hcombine : combine op' (operation op' (z :: zs)) y =
          operation op' (z :: (zs ++ [y])) := by
        simp [combine_eq, hflat, links]
      rw [hcombine, graft_operation hprec (by simp [hminus]),
        graft_operation hprec (by simp [hminus]), List.foldl_append]
      rfl
  · have hcombine : combine op' x y = operation op' [x, y] := by
      rw [combine_eq]
      cases hflat : op'.flattens with
      | false => simp
      | true =>
        cases x with
        | operation op'' operands =>
          have hne : op'' ≠ op' := by
            rintro rfl
            exact hsame ⟨hflat, operands, rfl⟩
          simp [links, hne]
        | _ => simp [links]
    rw [hcombine, graft_operation hprec (by simp)]
    rfl

theorem graft_foldl_combine {xs : List Expr} (hprec : op'.precedence = op.precedence)
    (hx : x.Solid) :
    graft op lhs (xs.foldl (combine op') x) = xs.foldl (combine op') (graft op lhs x) := by
  induction xs generalizing x with
  | nil => rfl
  | cons y ys ih =>
    rw [List.foldl_cons, ih (solid_combine hx), graft_combine hprec hx]
    rfl

theorem graft_graft (hprec : op'.precedence = op.precedence) (hx : x.Solid) :
    graft op lhs (graft op' x y) = graft op' (graft op lhs x) y := by
  fun_induction graft op' x y with
  | case1 op'' z zs h ih =>
    rw [graft_operation h.1 h.2, graft_foldl_combine (h.1.trans hprec) (solid_graft hx _), ih]
  | case2 op'' z zs h =>
    rw [graft_combine hprec hx, graft, if_neg h]
  | case3 e h =>
    rw [graft_combine hprec hx]
    exact (graft.eq_2 op' (graft op lhs x) e h).symm

theorem graft_attach (hprec : op'.precedence = op.precedence) (hx : x.Solid) :
    graft op lhs (attach op' x y) = attach op' (graft op lhs x) y := by
  unfold attach
  split
  · exact graft_combine hprec hx
  · exact graft_graft hprec hx

theorem solid_attach (h : lhs.Solid) : (attach op lhs x).Solid := by
  unfold attach
  split
  · exact solid_combine h
  · exact solid_graft h _

/-- Behind another operator of equal precedence a chain goes on as it would by itself. -/
theorem graft_foldl_attach {xs : List Expr} (hprec : op'.precedence = op.precedence)
    (hx : x.Solid) :
    graft op lhs (xs.foldl (attach op') x) = xs.foldl (attach op') (graft op lhs x) := by
  induction xs generalizing x with
  | nil => rfl
  | cons y ys ih =>
    rw [List.foldl_cons, ih (solid_attach hx), graft_attach hprec hx]
    rfl

/-- What an operator takes up becomes an operation of that operator. -/
theorem attach_operation (hlhs : lhs.Solid) (hx : x.Solid) :
    ∃ operands, attach op lhs x = operation op operands ∧ 2 ≤ operands.length := by
  unfold attach
  split
  · exact combine_operation hlhs
  · rename_i hparens
    fun_cases graft op lhs x with
    | case1 op' y ys hop =>
      have hout : (operation op' (y :: ys)).outermost? = some op' := by
        have hlen : ¬(op' = .minus ∧ (y :: ys).length = 1) := by simpa using hop.2
        rw [outermost?, if_neg hlen]
      rw [needsParens_eq, hout] at hparens
      have hsame : op' = op ∧ op.flattens := by
        have hparens := Bool.eq_false_iff.2 hparens
        simp only [hop.1, Nat.lt_irrefl, decide_false, Bool.false_or, beq_self_eq_true,
          Bool.true_and] at hparens
        simpa using hparens
      obtain ⟨rfl, hflat⟩ := hsame
      have hlen := (hx op' _ rfl).2 hflat
      refine foldl_combine_operation ?_ (solid_graft hlhs _)
      rintro rfl
      simp at hlen
    | case2 => exact combine_operation hlhs
    | case3 => exact combine_operation hlhs

theorem foldl_attach_operation {xs : List Expr} (hne : xs ≠ []) (hlhs : lhs.Solid)
    (hxs : ∀ x ∈ xs, x.Solid) :
    ∃ operands, xs.foldl (attach op) lhs = operation op operands ∧ 2 ≤ operands.length := by
  induction xs generalizing lhs with
  | nil => exact absurd rfl hne
  | cons x xs ih =>
    cases xs with
    | nil => exact attach_operation hlhs (hxs x List.mem_cons_self)
    | cons y ys =>
      exact ih (by simp) (solid_attach hlhs) fun z hz => hxs z (List.mem_cons_of_mem _ hz)

/-- An operator that does not flatten takes up what stands behind it as a whole. -/
theorem attach_of_not_flattens (hflat : op.flattens = false) :
    attach op lhs x = operation op [lhs, x] := by
  unfold attach
  split
  · exact combine_of_not_flattens hflat lhs x
  · rename_i hparens
    rw [graft_of_outermost, combine_of_not_flattens hflat]
    intro op' hop heq
    rw [needsParens_eq, hop] at hparens
    simp [heq, hflat] at hparens

end Grafting

/-- Reading the text of an expression changes neither the operator that decides about parentheses
nor that operations have operands. -/
theorem outermost?_regrouped {e : Expr} (he : e.Everywhere Counted fun _ => True) :
    (regrouped e).outermost? = e.outermost? ∧ (regrouped e).Solid := by
  have h : (∀ e : Expr, e.Everywhere Counted (fun _ => True) →
      (regrouped e).outermost? = e.outermost? ∧ (regrouped e).Solid) ∧ ∀ _ : Query, True := by
    refine tree_induction (fun e ih _ he => ?_) fun _ _ _ => trivial
    cases e with
    | operation op operands =>
      have hcount : op.acceptsOperands operands.length := he.here
      have hsolid : ∀ x ∈ operands, (regrouped x).Solid := fun x hx => (ih x hx (he.parts x hx)).2
      rw [regrouped, mapped_operation]
      have hlength := op.pos_of_acceptsOperands hcount
      match operands, hflat : op.flattens with
      | [], _ => cases hlength
      | [x], true => exact absurd (op.two_le_of_flattens hflat hcount) (by simp)
      | [x], false =>
        refine ⟨rfl, ?_⟩
        rintro op' xs ⟨⟩
        exact ⟨by simp, fun h => by rw [hflat] at h; cases h⟩
      | x :: y :: ys, false =>
        rw [regroup_of_not_flattens hflat]
        exact ⟨by simp [outermost?], solid_of_length (by simp)⟩
      | x :: y :: ys, true =>
        have hregroup : regroup (operation op ((x :: y :: ys).map (mapped regroup))) =
            ((y :: ys).map regrouped).foldl (attach op) (regrouped x) := by
          simp [regroup, hflat, regrouped]
        have hsolids : ∀ z ∈ (y :: ys).map regrouped, z.Solid := by
          intro _ hmem
          obtain ⟨z, hz, rfl⟩ := List.mem_map.1 hmem
          exact hsolid z (List.mem_cons_of_mem _ hz)
        obtain ⟨zs, hzs, hlen⟩ : ∃ zs, ((y :: ys).map regrouped).foldl (attach op) (regrouped x) =
            operation op zs ∧ 2 ≤ zs.length :=
          foldl_attach_operation (by simp) (hsolid x (by simp)) hsolids
        rw [hregroup, hzs]
        have hminus : op ≠ .minus := by
          rintro rfl
          cases hflat
        exact ⟨by simp [outermost?, hminus], solid_of_length hlen⟩
    | _ => exact ⟨rfl, fun op xs h => by cases h⟩
  exact h.1 e he

/-- A chain of an operator is read by taking up one operand after the other. -/
theorem regrouped_chain {op : Operator} {x y : Expr} {ys : List Expr}
    (hcount : op.flattens = false → ys = []) :
    regrouped (operation op (x :: y :: ys)) =
      ((y :: ys).map regrouped).foldl (attach op) (regrouped x) := by
  rw [regrouped, mapped_operation]
  cases hflat : op.flattens with
  | true => simp [regroup, hflat]
  | false =>
    obtain rfl := hcount hflat
    simp [regroup, hflat, attach_of_not_flattens hflat]

end Expr

end BoundSql
