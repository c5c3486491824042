import BoundSql.Proofs.Tree.Regroup

/-!
# When chains keep their groups

`Expr.spliced` is an expression with its chains spliced into each other, which is what its text is
meant to say. What the text does say, `Expr.regrouped`, has as many operands in parentheses as the
expression itself. Splicing may leave more of them, and leaves as many only if no group is lost.
-/

namespace BoundSql

open Grammar

namespace Expr

/-- An operation with the operands that have the same operator spliced in, if it flattens. -/
def splice : Expr → Expr
  | operation op operands =>
    if op.flattens then operation op (operands.flatMap (links op)) else operation op operands
  | e => e

/-- The expression with all chains spliced. -/
def spliced : Expr → Expr := mapped splice

/-- What the text of a chain of the operator opens with. -/
def opening (op : Operator) : Expr → Expr
  | operation op' (x :: xs) => if op' = op then opening op x else operation op' (x :: xs)
  | e => e

/-- No operand of a chain behind the first one is a chain itself that opens with an operation which
stands there without parentheses, but would need them behind the operator. -/
def KeepsGroup : Expr → Prop
  | operation op (_ :: xs) => op.flattens → ∀ y ∈ xs, y.needsParens op true = false →
      (y.opening op).needsParens op true = (y.opening op).needsParens op false
  | _ => True

/-- No chain in the expression loses a group. -/
def KeepsGroups (e : Expr) : Prop := e.Everywhere KeepsGroup fun _ => True

/-- The sum over the expressions. -/
def total (f : Expr → Nat) (es : List Expr) : Nat := es.foldr (fun e n => f e + n) 0

section Total

variable {f g : Expr → Nat} {xs ys : List Expr}

@[simp] theorem total_nil : total f [] = 0 := rfl

@[simp] theorem total_cons (x : Expr) : total f (x :: xs) = f x + total f xs := rfl

@[simp] theorem total_append : total f (xs ++ ys) = total f xs + total f ys := by
  induction xs with
  | nil => simp
  | cons x xs ih =>
    rw [List.cons_append, total_cons, total_cons, ih]
    omega

theorem total_map (h : Expr → Expr) : total f (xs.map h) = total (fun x => f (h x)) xs := by
  induction xs with
  | nil => rfl
  | cons x xs ih => rw [List.map_cons, total_cons, total_cons, ih]

theorem total_flatMap (h : Expr → List Expr) :
    total f (xs.flatMap h) = total (fun x => total f (h x)) xs := by
  induction xs with
  | nil => rfl
  | cons x xs ih => rw [List.flatMap_cons, total_append, total_cons, ih]

theorem total_add : total (fun x => f x + g x) xs = total f xs + total g xs := by
  induction xs with
  | nil => rfl
  | cons x xs ih =>
    rw [total_cons, total_cons, total_cons, ih]
    omega

theorem total_congr (h : ∀ x ∈ xs, f x = g x) : total f xs = total g xs := by
  induction xs with
  | nil => rfl
  | cons x xs ih =>
    rw [total_cons, total_cons, h x List.mem_cons_self,
      ih fun y hy => h y (List.mem_cons_of_mem _ hy)]

theorem total_le (h : ∀ x ∈ xs, f x ≤ g x) : total f xs ≤ total g xs := by
  induction xs with
  | nil => exact Nat.le_refl 0
  | cons x xs ih =>
    rw [total_cons, total_cons]
    exact Nat.add_le_add (h x List.mem_cons_self) (ih fun y hy => h y (List.mem_cons_of_mem _ hy))

/-- Sums of terms that are at most as great are equal only if all terms are. -/
theorem eq_of_total_eq (h : ∀ x ∈ xs, f x ≤ g x) (heq : total f xs = total g xs) :
    ∀ x ∈ xs, f x = g x := by
  induction xs with
  | nil => simp
  | cons x xs ih =>
    have hx := h x List.mem_cons_self
    have hxs : ∀ y ∈ xs, f y ≤ g y := fun y hy => h y (List.mem_cons_of_mem _ hy)
    have hle := total_le hxs
    rw [total_cons, total_cons] at heq
    intro y hy
    rcases List.mem_cons.1 hy with rfl | hy
    · omega
    · exact ih hxs (by omega) y hy

end Total

/-- No operation that the expression begins with is without operands. -/
def Rooted : Expr → Prop
  | operation _ [] => False
  | operation _ (x :: _) => x.Rooted
  | _ => True

/-- One if the operand stands in parentheses, else zero. -/
def bracket (op : Operator) (right : Bool) (e : Expr) : Nat := (e.needsParens op right).toNat

/-- The number of operands of an expression in parentheses. -/
def ownBrackets : Expr → Nat
  | operation op (x :: xs) => bracket op false x + total (bracket op true) xs
  | _ => 0

/-- The number of operands in parentheses anywhere in an expression. -/
def brackets (e : Expr) : Nat :=
  e.ownBrackets + (e.parts.attach.foldr (fun x n => brackets x.1 + n) 0)
termination_by sizeOf e
decreasing_by exact sizeOf_lt_of_mem_parts x.2

theorem brackets_eq (e : Expr) : e.brackets = e.ownBrackets + total brackets e.parts := by
  rw [brackets, List.foldr_attach (f := fun x n => brackets x + n)]
  rfl

theorem brackets_operation (op : Operator) (x : Expr) (xs : List Expr) :
    (operation op (x :: xs)).brackets = bracket op false x + x.brackets +
      total (fun y => bracket op true y + y.brackets) xs := by
  rw [brackets_eq, ownBrackets, parts, total_cons, total_add]
  omega

section Counting

variable {op op' : Operator} {lhs x y : Expr} {xs : List Expr}

theorem bracket_congr (h : x.outermost? = y.outermost?) (op : Operator) (right : Bool) :
    bracket op right x = bracket op right y := by
  rw [bracket, bracket, needsParens_congr h]

theorem bracket_eq_iff {right right' : Bool} : bracket op right x = bracket op' right' y ↔
    x.needsParens op right = y.needsParens op' right' := by
  rw [bracket, bracket]
  cases x.needsParens op right <;> cases y.needsParens op' right' <;> decide

/-- An operand of equal precedence needs no parentheses in front. -/
theorem bracket_false (h : x.outermost? = some op') (hprec : op'.precedence = op.precedence) :
    bracket op false x = 0 := by
  rw [bracket, needsParens_eq, h]
  simp [hprec]

/-- An operand that needs no parentheses behind its operator needs none in front. -/
theorem bracket_false_le (op : Operator) (x : Expr) : bracket op false x ≤ bracket op true x := by
  rw [bracket, bracket, needsParens_eq, needsParens_eq]
  split
  · exact Nat.le_refl _
  · rename_i op' _
    cases decide (op'.precedence < op.precedence) <;> simp

theorem needsParens_eq_of_right (h : x.needsParens op true = false) :
    x.needsParens op true = x.needsParens op false := by
  have hle := bracket_false_le op x
  rw [bracket, bracket, h] at hle
  rw [h]
  cases hfalse : x.needsParens op false with
  | false => rfl
  | true =>
    rw [hfalse] at hle
    cases hle

/-- Behind an operator and in front of it, the same operands of other precedence need parentheses. -/
theorem bracket_eq_of_outermost
    (h : ∀ op', x.outermost? = some op' → op'.precedence ≠ op.precedence) :
    bracket op true x = bracket op false x := by
  rw [bracket, bracket, needsParens_eq, needsParens_eq]
  split
  · rfl
  · rename_i op' hop
    have hne : (op'.precedence == op.precedence) = false := beq_eq_false_iff_ne.2 (h op' hop)
    simp [hne]

theorem outermost?_combine (h : lhs.Solid) : (combine op lhs y).outermost? = some op := by
  obtain ⟨operands, hcombine, hlen⟩ : ∃ operands, combine op lhs y = operation op operands ∧
      2 ≤ operands.length := combine_operation h
  rw [hcombine, outermost?, if_neg]
  omega

theorem brackets_combine (h : lhs.Solid) : (combine op lhs y).brackets =
    bracket op false lhs + lhs.brackets + (bracket op true y + y.brackets) := by
  have hpair : (operation op [lhs, y]).brackets =
      bracket op false lhs + lhs.brackets + (bracket op true y + y.brackets) := by
    rw [brackets_operation, total_cons, total_nil]
    rfl
  unfold combine
  split
  · rename_i op' operands
    by_cases hop : op.flattens ∧ op' = op
    · obtain ⟨hflat, rfl⟩ := hop
      have hlen := (h op' operands rfl).2 hflat
      cases operands with
      | nil => simp at hlen
      | cons z zs =>
        have hout : (operation op' (z :: zs)).outermost? = some op' := by
          rw [outermost?, if_neg]
          omega
        rw [if_pos (by simp [hflat]), List.cons_append, brackets_operation, brackets_operation,
          total_append, total_cons, total_nil, bracket_false hout rfl]
        omega
    · rw [if_neg (by simpa using hop)]
      exact hpair
  · exact hpair

theorem brackets_foldl_combine (h : lhs.Solid) (hlhs : bracket op false lhs = 0) :
    (xs.foldl (combine op) lhs).brackets =
      lhs.brackets + total (fun y => bracket op true y + y.brackets) xs := by
  induction xs generalizing lhs with
  | nil => rfl
  | cons x xs ih =>
    have hcombine : bracket op false (combine op lhs x) = 0 := bracket_false (outermost?_combine h) rfl
    rw [List.foldl_cons, ih (solid_combine h) hcombine, brackets_combine h, total_cons]
    omega

theorem outermost?_foldl_combine (h : lhs.Solid)
    (hlhs : ∃ op', lhs.outermost? = some op' ∧ op'.precedence = op.precedence) :
    ∃ op', (xs.foldl (combine op) lhs).outermost? = some op' ∧
      op'.precedence = op.precedence := by
  induction xs generalizing lhs with
  | nil => exact hlhs
  | cons x xs ih => exact ih (solid_combine h) ⟨op, outermost?_combine h, rfl⟩

theorem outermost?_graft (h : lhs.Solid) (y : Expr) :
    ∃ op', (graft op lhs y).outermost? = some op' ∧ op'.precedence = op.precedence := by
  fun_induction graft op lhs y with
  | case1 op' x xs hop ih =>
    obtain ⟨op'', hout, hprec⟩ := outermost?_foldl_combine (solid_graft h x)
      (ih.imp fun _ h => ⟨h.1, h.2.trans hop.1.symm⟩)
    exact ⟨op'', hout, hprec.trans hop.1⟩
  | case2 => exact ⟨op, outermost?_combine h, rfl⟩
  | case3 => exact ⟨op, outermost?_combine h, rfl⟩

/-- Taking up an expression without parentheses around it brings no parentheses. -/
theorem brackets_graft (h : lhs.Solid) {y : Expr} (hy : y.Rooted) : (graft op lhs y).brackets =
    bracket op false lhs + lhs.brackets + (bracket op false y + y.brackets) := by
  fun_induction graft op lhs y with
  | case1 op' x xs hop ih =>
    obtain ⟨op'', hout, hprec⟩ := outermost?_graft h x
    have hout' : (operation op' (x :: xs)).outermost? = some op' := by
      rw [outermost?, if_neg]
      simpa using hop.2
    have hx : bracket op' false x = bracket op false x := by
      rw [bracket, bracket, needsParens_eq, needsParens_eq, hop.1]
      simp
    rw [brackets_foldl_combine (solid_graft h x) (bracket_false hout (hprec.trans hop.1.symm)),
      ih hy, brackets_operation, bracket_false hout' hop.1, hx]
    omega
  | case2 op' x xs hop =>
    rw [brackets_combine h, bracket_eq_of_outermost]
    intro op'' hout hprec
    rw [outermost?] at hout
    split at hout
    · cases hout
    · rename_i hminus
      cases hout
      exact hop ⟨hprec, by simpa using hminus⟩
  | case3 e he =>
    rw [brackets_combine h, bracket_eq_of_outermost]
    intro op' hout
    cases e with
    | operation op'' operands =>
      cases operands with
      | nil => exact hy.elim
      | cons z zs => exact absurd rfl (he op'' z zs)
    | _ => cases hout

theorem brackets_attach (h : lhs.Solid) (hy : y.Rooted) : (attach op lhs y).brackets =
    bracket op false lhs + lhs.brackets + (bracket op true y + y.brackets) := by
  unfold attach
  split
  · exact brackets_combine h
  · rename_i hparens
    have htrue : bracket op true y = 0 := by
      rw [bracket, Bool.eq_false_iff.2 hparens]
      rfl
    have hle := bracket_false_le op y
    rw [brackets_graft h hy]
    omega

theorem rooted_combine (h : lhs.Rooted) : (combine op lhs y).Rooted := by
  unfold combine
  split
  · rename_i op' operands
    split
    · cases operands with
      | nil => exact h.elim
      | cons z zs => exact h
    · exact h
  · exact h

theorem rooted_foldl_combine (h : lhs.Rooted) : (xs.foldl (combine op) lhs).Rooted := by
  induction xs generalizing lhs with
  | nil => exact h
  | cons x xs ih => exact ih (rooted_combine h)

theorem rooted_graft (h : lhs.Rooted) (y : Expr) : (graft op lhs y).Rooted := by
  fun_induction graft op lhs y with
  | case1 op' x xs hop ih => exact rooted_foldl_combine ih
  | case2 => exact rooted_combine h
  | case3 => exact rooted_combine h

theorem rooted_foldl_attach (h : lhs.Rooted) : (xs.foldl (attach op) lhs).Rooted := by
  induction xs generalizing lhs with
  | nil => exact h
  | cons x xs ih =>
    refine ih ?_
    unfold attach
    split
    · exact rooted_combine h
    · exact rooted_graft h x

theorem outermost?_attach (hlhs : lhs.Solid) (hx : x.Solid) :
    (attach op lhs x).outermost? = some op := by
  obtain ⟨operands, hattach, hlen⟩ : ∃ operands, attach op lhs x = operation op operands ∧
      2 ≤ operands.length := attach_operation hlhs hx
  rw [hattach, outermost?, if_neg]
  omega

/-- A chain has as many parentheses as its operands by themselves and around them. -/
theorem brackets_foldl_attach (h : lhs.Solid) (hne : xs ≠ [])
    (hxs : ∀ x ∈ xs, x.Solid ∧ x.Rooted) : (xs.foldl (attach op) lhs).brackets =
      bracket op false lhs + lhs.brackets + total (fun y => bracket op true y + y.brackets) xs := by
  induction xs generalizing lhs with
  | nil => exact absurd rfl hne
  | cons x xs ih =>
    obtain ⟨hsolid, hrooted⟩ := hxs x List.mem_cons_self
    rw [List.foldl_cons, total_cons]
    cases xs with
    | nil =>
      rw [List.foldl_nil, brackets_attach h hrooted, total_nil]
      rfl
    | cons y ys =>
      have hfirst : bracket op false (attach op lhs x) = 0 := bracket_false (outermost?_attach h hsolid) rfl
      rw [ih (solid_attach h) (by simp) (fun z hz => hxs z (List.mem_cons_of_mem _ hz)), hfirst,
        brackets_attach h hrooted]
      omega

theorem foldl_combine_chain (hflat : op.flattens) (ys zs : List Expr) :
    zs.foldl (combine op) (operation op ys) = operation op (ys ++ zs) := by
  induction zs generalizing ys with
  | nil => rw [List.append_nil, List.foldl_nil]
  | cons z zs ih =>
    rw [List.foldl_cons, combine_eq, hflat, if_pos rfl, links, if_pos rfl, ih, List.append_assoc]
    rfl

/-- An expression that needs the same parentheses on both sides of the operator, and is no chain of
it, is taken up as a whole. -/
theorem graft_of_needsParens (hparens : x.needsParens op true = x.needsParens op false)
    (hne : ∀ operands, x ≠ operation op operands) : graft op lhs x = combine op lhs x := by
  refine graft_of_outermost fun op' hout hprec => ?_
  rw [needsParens_eq, needsParens_eq, hout] at hparens
  have hsame : op' = op := by
    simp only [hprec, Nat.lt_irrefl, decide_false, beq_self_eq_true] at hparens
    simp at hparens
    exact hparens.1
  cases x with
  | operation op'' operands =>
    rw [outermost?] at hout
    split at hout
    · cases hout
    · cases hout
      exact hne operands (by rw [hsame])
  | _ => cases hout

end Counting

/-- Operators have as many operands as they accept, and no query stands in the expression. -/
def Simple (e : Expr) : Prop := e.Everywhere Counted fun _ => False

namespace Simple

variable {e : Expr} {op : Operator} {operands : List Expr}

theorem queries (h : e.Simple) : e.queries = [] := by
  rw [List.eq_nil_iff_forall_not_mem]
  exact fun q hq => (Everywhere.queries h q hq).here

theorem steady (h : e.Simple) : (regrouped e).outermost? = e.outermost? ∧ (regrouped e).Solid :=
  outermost?_regrouped (Everywhere.mono (fun _ h => h) (fun _ _ => trivial) h)

/-- An operation has a first operand. -/
theorem operands_eq (h : (operation op operands).Simple) : ∃ x xs, operands = x :: xs ∧
    (op.flattens → xs ≠ []) := by
  have hcount : op.acceptsOperands operands.length := h.here
  cases operands with
  | nil => exact absurd (op.pos_of_acceptsOperands hcount) (Nat.lt_irrefl 0)
  | cons x xs =>
    refine ⟨x, xs, rfl, ?_⟩
    rintro hflat rfl
    exact absurd (op.two_le_of_flattens hflat hcount) (by simp)

/-- Away from operations, the text is read as its parts are. -/
theorem regrouped_eq (h : e.Simple) (hop : ∀ op operands, e ≠ operation op operands) :
    regrouped e = e.mapParts regrouped := by
  rw [regrouped, mapped_eq regroup h.queries]
  cases e with
  | operation op operands => exact absurd rfl (hop op operands)
  | _ => rfl

theorem spliced_eq (h : e.Simple) (hop : ∀ op operands, e ≠ operation op operands) :
    spliced e = e.mapParts spliced := by
  rw [spliced, mapped_eq splice h.queries]
  cases e with
  | operation op operands => exact absurd rfl (hop op operands)
  | _ => rfl

theorem brackets_mapParts {f : Expr → Expr} (hop : ∀ op operands, e ≠ operation op operands) :
    (e.mapParts f).brackets = total (fun x => (f x).brackets) e.parts := by
  have hown : (e.mapParts f).ownBrackets = 0 := by
    cases e with
    | operation op operands => exact absurd rfl (hop op operands)
    | _ => rfl
  rw [brackets_eq, hown, parts_mapParts, total_map, Nat.zero_add]

theorem brackets_parts (hop : ∀ op operands, e ≠ operation op operands) :
    e.brackets = total brackets e.parts := by
  have hown : e.ownBrackets = 0 := by
    cases e with
    | operation op operands => exact absurd rfl (hop op operands)
    | _ => rfl
  rw [brackets_eq, hown, Nat.zero_add]

theorem rooted_regrouped (h : e.Simple) : (regrouped e).Rooted := by
  have hall : (∀ e : Expr, e.Simple → (regrouped e).Rooted) ∧ ∀ _ : Query, True := by
    refine tree_induction (fun e ih _ he => ?_) fun _ _ _ => trivial
    by_cases hop : ∃ op operands, e = operation op operands
    · obtain ⟨op, operands, rfl⟩ := hop
      obtain ⟨x, xs, rfl, hflat⟩ := he.operands_eq
      have hx : (regrouped x).Rooted := ih x (by simp [parts]) (he.parts x (by simp [parts]))
      cases hflattens : op.flattens with
      | false =>
        rw [regrouped_operation hflattens]
        exact hx
      | true =>
        obtain ⟨y, ys, rfl⟩ := List.exists_cons_of_ne_nil (hflat hflattens)
        rw [regrouped_chain fun h => by rw [hflattens] at h; cases h]
        exact rooted_foldl_attach hx
    · have hop op operands (h : e = operation op operands) := hop ⟨op, operands, h⟩
      rw [regrouped_eq he hop]
      cases e with
      | operation op operands => exact absurd rfl (hop op operands)
      | _ => trivial
  exact hall.1 e h

/-- The text of an expression has the parentheses of the expression. -/
theorem brackets_regrouped (h : e.Simple) : (regrouped e).brackets = e.brackets := by
  have hall : (∀ e : Expr, e.Simple → (regrouped e).brackets = e.brackets) ∧ ∀ _ : Query, True := by
    refine tree_induction (fun e ih _ he => ?_) fun _ _ _ => trivial
    have ih x (hx : x ∈ e.parts) := ih x hx (he.parts x hx)
    by_cases hop : ∃ op operands, e = operation op operands
    · obtain ⟨op, operands, rfl⟩ := hop
      obtain ⟨x, xs, rfl, hflat⟩ := he.operands_eq
      have hsteady : ∀ y ∈ x :: xs, (regrouped y).outermost? = y.outermost? ∧ (regrouped y).Solid :=
        fun y hy => steady (he.parts y hy)
      have hothers : total (fun y => bracket op true y + y.brackets) (xs.map regrouped) =
          total (fun y => bracket op true y + y.brackets) xs := by
        rw [total_map]
        refine total_congr fun y hy => ?_
        have hy := List.mem_cons_of_mem x hy
        rw [bracket_congr (hsteady y hy).1, ih y hy]
      have hfirst := bracket_congr (hsteady x List.mem_cons_self).1 op false
      have hx : (regrouped x).brackets = x.brackets := ih x List.mem_cons_self
      cases hflattens : op.flattens with
      | false =>
        rw [regrouped_operation hflattens, List.map_cons, brackets_operation, hothers, hfirst, hx,
          brackets_operation]
      | true =>
        have hne := hflat hflattens
        obtain ⟨y, ys, rfl⟩ := List.exists_cons_of_ne_nil hne
        rw [regrouped_chain (fun h => by rw [hflattens] at h; cases h),
          brackets_foldl_attach (hsteady x List.mem_cons_self).2 (by simp), hothers, hfirst, hx,
          brackets_operation]
        intro _ hmem
        obtain ⟨z, hz, rfl⟩ := List.mem_map.1 hmem
        have hz := List.mem_cons_of_mem x hz
        exact ⟨(hsteady z hz).2, rooted_regrouped (he.parts z hz)⟩
    · have hop op operands (h : e = operation op operands) := hop ⟨op, operands, h⟩
      rw [regrouped_eq he hop, brackets_mapParts hop, brackets_parts hop]
      exact total_congr ih
  exact hall.1 e h

theorem spliced_operation (op : Operator) (operands : List Expr) :
    spliced (operation op operands) = splice (operation op (operands.map spliced)) :=
  mapped_operation op operands

theorem links_ne_nil (h : e.Solid) (op : Operator) : links op e ≠ [] := by
  unfold links
  split
  · split
    · exact (h _ _ rfl).1
    · simp
  · simp

theorem length_le_flatMap_links {xs : List Expr} (h : ∀ x ∈ xs, x.Solid) :
    xs.length ≤ (xs.flatMap (links op)).length := by
  induction xs with
  | nil => exact Nat.le_refl 0
  | cons x xs ih =>
    have hx := List.length_pos_iff.2 (links_ne_nil (h x List.mem_cons_self) op)
    have ih := ih fun y hy => h y (List.mem_cons_of_mem _ hy)
    rw [List.flatMap_cons, List.length_append, List.length_cons]
    omega

/-- Splicing changes neither the operator that decides about parentheses nor that operations have
operands. -/
theorem steady_spliced (h : e.Simple) :
    (spliced e).outermost? = e.outermost? ∧ (spliced e).Solid := by
  have hall : (∀ e : Expr, e.Simple →
      (spliced e).outermost? = e.outermost? ∧ (spliced e).Solid) ∧ ∀ _ : Query, True := by
    refine tree_induction (fun e ih _ he => ?_) fun _ _ _ => trivial
    by_cases hop : ∃ op operands, e = operation op operands
    · obtain ⟨op, operands, rfl⟩ := hop
      obtain ⟨x, xs, rfl, hflat⟩ := he.operands_eq
      rw [spliced_operation]
      cases hflattens : op.flattens with
      | false =>
        have hsplice : splice (operation op ((x :: xs).map spliced)) =
            operation op ((x :: xs).map spliced) := by
          rw [splice, hflattens]
          rfl
        rw [hsplice]
        refine ⟨by simp [outermost?], ?_⟩
        rintro op' zs ⟨⟩
        exact ⟨by simp, fun h => by rw [hflattens] at h; cases h⟩
      | true =>
        have hsplice : splice (operation op ((x :: xs).map spliced)) =
            operation op (((x :: xs).map spliced).flatMap (links op)) := by
          rw [splice, hflattens]
          rfl
        have hlen : 2 ≤ (((x :: xs).map spliced).flatMap (links op)).length := by
          have hxs := List.length_pos_iff.2 (hflat hflattens)
          have hsolid : ∀ y ∈ (x :: xs).map spliced, y.Solid := by
            intro _ hmem
            obtain ⟨y, hy, rfl⟩ := List.mem_map.1 hmem
            exact (ih y hy (he.parts y hy)).2
          have hle : ((x :: xs).map spliced).length ≤
              (((x :: xs).map spliced).flatMap (links op)).length := length_le_flatMap_links hsolid
          rw [List.length_map, List.length_cons] at hle
          omega
        have hminus : op ≠ .minus := by
          rintro rfl
          cases hflattens
        rw [hsplice]
        exact ⟨by simp [outermost?, hminus], solid_of_length hlen⟩
    · have hop op operands (h : e = operation op operands) := hop ⟨op, operands, h⟩
      rw [spliced_eq he hop]
      cases e with
      | operation op operands => exact absurd rfl (hop op operands)
      | _ => exact ⟨rfl, fun op xs h => by cases h⟩
  exact hall.1 e h

/-- What a spliced operand gives to a chain begins with what its text opens with. -/
theorem links_spliced (hflat : op.flattens) (h : e.Simple) : ∃ z zs,
    links op (spliced e) = z :: zs ∧ z.outermost? = (e.opening op).outermost? ∧
      ∀ operands, z ≠ operation op operands := by
  fun_induction opening op e with
  | case1 x xs ih =>
    obtain ⟨z, zs, hz, hout, hne⟩ := ih (h.parts x List.mem_cons_self)
    refine ⟨z, zs ++ (xs.map spliced).flatMap (links op), ?_, hout, hne⟩
    rw [spliced_operation, splice, hflat, if_pos rfl, links, if_pos rfl, List.map_cons,
      List.flatMap_cons, hz, List.cons_append]
  | case2 op' x xs hop =>
    obtain ⟨zs, hzs⟩ : ∃ zs, spliced (operation op' (x :: xs)) = operation op' zs := by
      rw [spliced_operation, splice]
      split <;> exact ⟨_, rfl⟩
    have hout := (steady_spliced h).1
    rw [hzs] at hout ⊢
    refine ⟨operation op' zs, [], by rw [links, if_neg hop], hout, ?_⟩
    rintro operands ⟨⟩
    exact hop rfl
  | case3 e hne =>
    have hop op' operands (heq : e = operation op' operands) : False := by
      subst heq
      obtain ⟨x, xs, rfl, -⟩ := h.operands_eq
      exact hne op' x xs rfl
    have hout := (steady_spliced h).1
    have hspliced op' operands : spliced e ≠ operation op' operands := by
      rw [spliced_eq h hop]
      cases e with
      | operation op operands => exact (hop op operands rfl).elim
      | _ => simp [mapParts]
    refine ⟨spliced e, [], ?_, hout, hspliced op⟩
    unfold links
    split
    · exact absurd ‹_› (hspliced _ _)
    · rfl

theorem links_cases (op : Operator) (e : Expr) :
    e = operation op (links op e) ∨ links op e = [e] := by
  unfold links
  split
  · rename_i op' operands
    by_cases hop : op' = op
    · rw [if_pos hop, hop]
      exact .inl rfl
    · exact .inr (if_neg hop)
  · exact .inr rfl

/-- A chain with at least two operands has its operator. -/
theorem outermost?_chain (hflat : op.flattens) (operands : List Expr) :
    (operation op operands).outermost? = some op := by
  rw [outermost?, if_neg]
  rintro ⟨rfl, -⟩
  cases hflat

/-- The parentheses that an operand brings to a chain behind the first operand. -/
def brought (op : Operator) (e : Expr) : Nat :=
  total (fun z => bracket op true z + z.brackets) (links op e)

theorem brackets_spliced_operation {x : Expr} {xs : List Expr} (hflat : op.flattens)
    (hx : x.Simple) : (spliced (operation op (x :: xs))).brackets =
      bracket op false x + (spliced x).brackets + total (fun y => brought op (spliced y)) xs := by
  obtain ⟨z, zs, hz, -, -⟩ := links_spliced hflat hx
  have hout := (steady_spliced hx).1
  have hfirst : bracket op false z + z.brackets +
      total (fun y => bracket op true y + y.brackets) zs =
        bracket op false x + (spliced x).brackets := by
    rcases links_cases op (spliced x) with hchain | hone
    · rw [hz] at hchain
      rw [hchain, outermost?_chain hflat] at hout
      rw [hchain, brackets_operation, bracket_false hout.symm rfl]
      omega
    · rw [hz] at hone
      obtain ⟨rfl, rfl⟩ : z = spliced x ∧ zs = [] := by simpa using hone
      rw [bracket_congr hout, total_nil]
      rfl
  rw [spliced_operation, splice, hflat, if_pos rfl, List.map_cons, List.flatMap_cons, hz,
    List.cons_append, brackets_operation, total_append, total_flatMap, total_map, ← hfirst]
  exact (Nat.add_assoc _ _ _).symm

/-- An operand brings the parentheses that it has, and more only if it loses a group. -/
theorem le_brought (hflat : op.flattens) (h : e.Simple) :
    bracket op true e + (spliced e).brackets ≤ brought op (spliced e) ∧
      (bracket op true e + (spliced e).brackets = brought op (spliced e) →
        e.needsParens op true = false →
          (e.opening op).needsParens op true = (e.opening op).needsParens op false) := by
  obtain ⟨z, zs, hz, hopening, -⟩ := links_spliced hflat h
  have hout := (steady_spliced h).1
  have hle := bracket_false_le op z
  rw [brought, hz, total_cons]
  rcases links_cases op (spliced e) with hchain | hone
  · rw [hz] at hchain
    have hnone : bracket op true e = 0 := by
      rw [hchain, outermost?_chain hflat] at hout
      rw [bracket, needsParens_eq, ← hout]
      simp [hflat]
    rw [hnone, hchain, brackets_operation]
    refine ⟨by omega, fun heq _ => ?_⟩
    have hsame : bracket op true z = bracket op false z := by omega
    rw [← needsParens_congr hopening, ← needsParens_congr hopening]
    exact bracket_eq_iff.1 hsame
  · rw [hz] at hone
    obtain ⟨rfl, rfl⟩ : z = spliced e ∧ zs = [] := by simpa using hone
    rw [total_nil, bracket_congr hout]
    refine ⟨Nat.le_refl _, fun _ hparens => ?_⟩
    rw [needsParens_congr (hopening.symm.trans hout), needsParens_congr (hopening.symm.trans hout)]
    exact needsParens_eq_of_right hparens

/-- What is known of the parentheses of the operands gives those of an operation, if `brings` says
how many the operands behind the first bring after splicing. -/
theorem le_brackets_operation {x : Expr} {xs : List Expr} {brings : Expr → Nat}
    (he : (operation op (x :: xs)).Simple)
    (hparts : ∀ y ∈ x :: xs, y.brackets ≤ (spliced y).brackets ∧
      (y.brackets = (spliced y).brackets → y.KeepsGroups))
    (hbrings : ∀ y ∈ xs, bracket op true y + (spliced y).brackets ≤ brings y)
    (htotal : (spliced (operation op (x :: xs))).brackets =
      bracket op false x + (spliced x).brackets + total brings xs)
    (hkeeps : (∀ y ∈ xs, bracket op true y + (spliced y).brackets = brings y) →
      (operation op (x :: xs)).KeepsGroup) :
    (operation op (x :: xs)).brackets ≤ (spliced (operation op (x :: xs))).brackets ∧
      ((operation op (x :: xs)).brackets = (spliced (operation op (x :: xs))).brackets →
        (operation op (x :: xs)).KeepsGroups) := by
  obtain ⟨hx, hxkeeps⟩ := hparts x List.mem_cons_self
  have hxs y (hy : y ∈ xs) := hparts y (List.mem_cons_of_mem x hy)
  have hle : ∀ y ∈ xs, bracket op true y + y.brackets ≤ brings y :=
    fun y hy => Nat.le_trans (Nat.add_le_add_left (hxs y hy).1 _) (hbrings y hy)
  have htotals := total_le hle
  rw [brackets_operation, htotal]
  refine ⟨by omega, fun heq => ?_⟩
  have hterms := eq_of_total_eq hle (by omega)
  have hsame y (hy : y ∈ xs) : y.brackets = (spliced y).brackets ∧
      bracket op true y + (spliced y).brackets = brings y := by
    have hterm := hterms y hy
    have hless := (hxs y hy).1
    have hmore := hbrings y hy
    omega
  refine ⟨hkeeps fun y hy => (hsame y hy).2, fun y hy => ?_, fun q hq => ?_⟩
  · rcases List.mem_cons.1 hy with rfl | hy
    · exact hxkeeps (by omega)
    · exact (hxs y hy).2 (hsame y hy).1
  · cases hq

/-- Splicing leaves at least as many parentheses, and as many only if no group is lost. -/
theorem le_brackets_spliced (h : e.Simple) : e.brackets ≤ (spliced e).brackets ∧
    (e.brackets = (spliced e).brackets → e.KeepsGroups) := by
  have hall : (∀ e : Expr, e.Simple → e.brackets ≤ (spliced e).brackets ∧
      (e.brackets = (spliced e).brackets → e.KeepsGroups)) ∧ ∀ _ : Query, True := by
    refine tree_induction (fun e ih _ he => ?_) fun _ _ _ => trivial
    have ih x (hx : x ∈ e.parts) := ih x hx (he.parts x hx)
    by_cases hop : ∃ op operands, e = operation op operands
    · obtain ⟨op, operands, rfl⟩ := hop
      obtain ⟨x, xs, rfl, hflat⟩ := he.operands_eq
      cases hflattens : op.flattens with
      | false =>
        have hbracket {right : Bool} y (hy : y ∈ x :: xs) :
            bracket op right (spliced y) = bracket op right y :=
          bracket_congr (steady_spliced (he.parts y hy)).1 op right
        refine le_brackets_operation he ih (fun y hy => Nat.le_refl _) ?_
          fun _ hflat => by rw [hflattens] at hflat; cases hflat
        rw [spliced_operation, splice, hflattens, List.map_cons, if_neg Bool.false_ne_true,
          brackets_operation, total_map, hbracket x List.mem_cons_self]
        congr 1
        exact total_congr fun y hy => by rw [hbracket y (List.mem_cons_of_mem x hy)]
      | true =>
        have hbrought y (hy : y ∈ xs) := le_brought hflattens (he.parts y (List.mem_cons_of_mem x hy))
        refine le_brackets_operation he ih (fun y hy => (hbrought y hy).1)
          (brackets_spliced_operation hflattens (he.parts x List.mem_cons_self)) ?_
        exact fun heq _ y hy => (hbrought y hy).2 (heq y hy)
    · have hop op operands (h : e = operation op operands) := hop ⟨op, operands, h⟩
      have hle : ∀ x ∈ e.parts, x.brackets ≤ (spliced x).brackets := fun x hx => (ih x hx).1
      rw [spliced_eq he hop, brackets_mapParts hop, brackets_parts hop]
      refine ⟨total_le hle, fun heq => ⟨?_, fun x hx => ?_, fun q hq => ?_⟩⟩
      · cases e with
        | operation op operands => exact absurd rfl (hop op operands)
        | _ => trivial
      · exact (ih x hx).2 (eq_of_total_eq hle heq x hx)
      · rw [he.queries] at hq
        cases hq
  exact hall.1 e h

/-- An operand that keeps its group is taken up as splicing puts it. -/
theorem attach_spliced {lhs : Expr} (hflat : op.flattens) (h : e.Simple)
    (hkeeps : e.needsParens op true = false →
      (e.opening op).needsParens op true = (e.opening op).needsParens op false) :
    attach op lhs (spliced e) = operation op (links op lhs ++ links op (spliced e)) := by
  obtain ⟨z, zs, hz, hopening, hne⟩ := links_spliced hflat h
  have hout := (steady_spliced h).1
  have hcombine (x : Expr) : combine op lhs x = operation op (links op lhs ++ [x]) := by
    rw [combine_eq, hflat, if_pos rfl]
  have hchain (operands : List Expr) (heq : spliced e = operation op operands) :
      e.needsParens op true = false := by
    rw [heq, outermost?_chain hflat] at hout
    rw [needsParens_eq, ← hout]
    simp [hflat]
  unfold attach
  rw [needsParens_congr hout]
  cases hparens : e.needsParens op true with
  | true =>
    rw [if_pos rfl, hcombine]
    rcases links_cases op (spliced e) with heq | heq
    · rw [hchain _ heq] at hparens
      cases hparens
    · rw [heq]
  | false =>
    rw [if_neg Bool.false_ne_true]
    rcases links_cases op (spliced e) with heq | heq
    · rw [hz] at heq ⊢
      have hsame := hkeeps hparens
      rw [← needsParens_congr hopening, ← needsParens_congr hopening] at hsame
      have hminus : ¬(op = .minus ∧ zs = []) := by
        rintro ⟨rfl, -⟩
        cases hflat
      rw [heq, graft_operation rfl hminus, graft_of_needsParens hsame hne, hcombine,
        foldl_combine_chain hflat, List.append_assoc]
      rfl
    · rw [hz] at heq
      obtain ⟨rfl, rfl⟩ : z = spliced e ∧ zs = [] := by simpa using heq
      rw [hz, graft_of_needsParens _ hne, hcombine]
      rw [needsParens_congr hout, needsParens_congr hout]
      exact needsParens_eq_of_right hparens

/-- Operands that keep their groups are taken up as splicing puts them. -/
theorem foldl_attach_spliced {lhs : Expr} {ys : List Expr} (hflat : op.flattens) (hne : ys ≠ [])
    (hys : ∀ y ∈ ys, y.Simple ∧ (y.needsParens op true = false →
      (y.opening op).needsParens op true = (y.opening op).needsParens op false)) :
    (ys.map spliced).foldl (attach op) lhs =
      operation op (links op lhs ++ (ys.map spliced).flatMap (links op)) := by
  induction ys generalizing lhs with
  | nil => exact absurd rfl hne
  | cons y ys ih =>
    obtain ⟨hy, hkeeps⟩ := hys y List.mem_cons_self
    rw [List.map_cons, List.foldl_cons, attach_spliced hflat hy hkeeps, List.flatMap_cons]
    cases ys with
    | nil => simp
    | cons z zs =>
      rw [ih (by simp) fun x hx => hys x (List.mem_cons_of_mem y hx), links, if_pos rfl,
        List.append_assoc]

/-- Where all groups are kept, the text is read as splicing puts it. -/
theorem regrouped_eq_spliced (h : e.Simple) (hkeeps : e.KeepsGroups) : regrouped e = spliced e := by
  have hall : (∀ e : Expr, e.Simple → e.KeepsGroups → regrouped e = spliced e) ∧
      ∀ _ : Query, True := by
    refine tree_induction (fun e ih _ he hkeeps => ?_) fun _ _ _ => trivial
    have ih x (hx : x ∈ e.parts) := ih x hx (he.parts x hx) (hkeeps.parts x hx)
    by_cases hop : ∃ op operands, e = operation op operands
    · obtain ⟨op, operands, rfl⟩ := hop
      obtain ⟨x, xs, rfl, hflat⟩ := he.operands_eq
      have hmap : (x :: xs).map regrouped = (x :: xs).map spliced := List.map_congr_left ih
      cases hflattens : op.flattens with
      | false =>
        rw [regrouped_operation hflattens, spliced_operation, splice, hflattens, hmap]
        rfl
      | true =>
        obtain ⟨y, ys, rfl⟩ := List.exists_cons_of_ne_nil (hflat hflattens)
        have hx : regrouped x = spliced x := ih x List.mem_cons_self
        have hys : (y :: ys).map regrouped = (y :: ys).map spliced :=
          List.map_congr_left fun z hz => ih z (List.mem_cons_of_mem x hz)
        rw [regrouped_chain (fun h => by rw [hflattens] at h; cases h), hx, hys,
          foldl_attach_spliced hflattens (by simp), spliced_operation, splice, hflattens, if_pos rfl]
        · rfl
        · exact fun z hz => ⟨he.parts z (List.mem_cons_of_mem x hz), hkeeps.here hflattens z hz⟩
    · have hop op operands (h : e = operation op operands) := hop ⟨op, operands, h⟩
      rw [regrouped_eq he hop, spliced_eq he hop]
      exact mapParts_congr ih
  exact hall.1 e h hkeeps

/-- The text of an expression is read as the expression with its chains spliced exactly if no
operand of a chain opens with an operation that loses its group there. -/
theorem regrouped_eq_spliced_iff (h : e.Simple) : regrouped e = spliced e ↔ e.KeepsGroups := by
  refine ⟨fun heq => (le_brackets_spliced h).2 ?_, h.regrouped_eq_spliced⟩
  rw [← heq, h.brackets_regrouped]

end Simple

end Expr

end BoundSql
