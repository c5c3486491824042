import BoundSql.Proofs.Tree.Formed

/-!
# The rule about compounds

The check of a compound compares one number of columns for each branch: that of the first SELECT
whose number is known. Nested compounds are checked on their own. Together this decides a rule
about the whole tree of branches: every compound in it has two branches, every SELECT at its ends
passes its own check, and those without a wildcard all have the same number of columns.
-/

namespace BoundSql

/-! ## Checks that find nothing -/

section Passes

variable {x : Except Violation Unit} {holds : Bool} {v : Violation}

theorem require_eq_ok_iff : require holds v = .ok () ↔ holds = true := by
  cases holds <;> simp [require]

theorem check_bind_eq_ok_iff {k : Unit → Except Violation Unit} :
    (x >>= k) = .ok () ↔ x = .ok () ∧ k () = .ok () := by
  cases x with
  | error v' =>
    constructor
    · intro passes
      cases passes
    · rintro ⟨passes, -⟩
      cases passes
  | ok _ => exact ⟨fun passes => ⟨rfl, passes⟩, And.right⟩

theorem check_forM_eq_ok_iff {α : Type} {f : α → Except Violation Unit} {xs : List α} :
    xs.forM f = .ok () ↔ ∀ a ∈ xs, f a = .ok () := by
  induction xs with
  | nil => exact ⟨fun _ a ha => absurd ha List.not_mem_nil, fun _ => rfl⟩
  | cons a as ih =>
    rw [List.forall_mem_cons, ← ih]
    exact check_bind_eq_ok_iff

end Passes

/-! ## SELECTs -/

theorem Join.check_eq_ok_iff {targets : Nat} {j : Join} :
    j.check targets = .ok () ↔ j.Placed targets := by
  obtain ⟨kind, position, condition⟩ := j
  have kinds : (kind != .cross && kind != .natural) = true ↔ kind ≠ .cross ∧ kind ≠ .natural := by
    rw [Bool.and_eq_true, bne_iff_ne, bne_iff_ne]
  have placed : (decide (0 < position) && decide (position < targets)) = true ↔
      0 < position ∧ position < targets := by
    rw [Bool.and_eq_true, decide_eq_true_eq, decide_eq_true_eq]
  have conditioned (h : condition ≠ .none) :
      (⟨kind, position, condition⟩ : Join).Placed targets ↔
        (0 < position ∧ position < targets) ∧ kind ≠ .cross ∧ kind ≠ .natural := by
    constructor
    · intro p
      exact ⟨⟨p.behindFirst, p.atTarget⟩, p.condition h⟩
    · rintro ⟨⟨behindFirst, atTarget⟩, allowed⟩
      exact ⟨behindFirst, atTarget, fun _ => allowed⟩
  refine check_bind_eq_ok_iff.trans ?_
  rw [require_eq_ok_iff, placed]
  cases condition with
  | none =>
    constructor
    · rintro ⟨⟨behindFirst, atTarget⟩, -⟩
      exact ⟨behindFirst, atTarget, fun h => absurd rfl h⟩
    · intro p
      exact ⟨⟨p.behindFirst, p.atTarget⟩, rfl⟩
  | predicate e =>
    rw [conditioned (by intro h; cases h), ← kinds]
    exact and_congr_right' require_eq_ok_iff
  | columns names =>
    rw [conditioned (by intro h; cases h), ← kinds]
    exact and_congr_right' require_eq_ok_iff

theorem Target.checkAll_eq_ok_iff {ts : List Target} :
    checkAll ts = .ok () ↔ ∀ q ∈ ts.filterMap (·.rows.query?), q.check = .ok () := by
  induction ts with
  | nil => exact ⟨fun _ q hq => absurd hq List.not_mem_nil, fun _ => rfl⟩
  | cons t ts ih =>
    obtain ⟨rows, label⟩ := t
    cases rows with
    | table name => exact ih
    | subquery q =>
      show (q.check >>= fun _ => checkAll ts) = .ok () ↔
        ∀ q' ∈ q :: ts.filterMap (·.rows.query?), q'.check = .ok ()
      rw [check_bind_eq_ok_iff, List.forall_mem_cons, ih]

/-- A SELECT passes its check if it keeps the rules about its own columns and joins, and the
queries among its targets pass theirs. -/
theorem Select.check_eq_ok_iff {s : Select} : s.check = .ok () ↔
    (Query.select s).FormedHere ∧ ∀ q ∈ (Query.select s).queries, q.check = .ok () := by
  obtain ⟨_, _, columns, source?, _, _, _, _, _, _⟩ := s
  have some : (!columns.isEmpty) = true ↔ columns ≠ [] := by simp
  rw [Select.check.eq_def, check_bind_eq_ok_iff, require_eq_ok_iff, some]
  cases source? with
  | none =>
    constructor
    · rintro ⟨nonempty, -⟩
      exact ⟨⟨nonempty, fun f hf => by cases hf⟩, fun q hq => absurd hq List.not_mem_nil⟩
    · rintro ⟨⟨nonempty, -⟩, -⟩
      exact ⟨nonempty, rfl⟩
  | some f =>
    obtain ⟨targets, joins⟩ := f
    have someTarget : (!targets.isEmpty) = true ↔ targets ≠ [] := by simp
    dsimp only
    rw [check_bind_eq_ok_iff, require_eq_ok_iff, someTarget, check_bind_eq_ok_iff,
      Target.checkAll_eq_ok_iff, check_forM_eq_ok_iff]
    constructor
    · rintro ⟨nonempty, target, below, placed⟩
      refine ⟨⟨nonempty, fun f hf => ?_⟩, below⟩
      cases hf
      exact ⟨target, fun j hj => Join.check_eq_ok_iff.1 (placed j hj)⟩
    · rintro ⟨⟨nonempty, formed⟩, below⟩
      obtain ⟨target, placed⟩ := formed _ rfl
      exact ⟨nonempty, target, below, fun j hj => Join.check_eq_ok_iff.2 (placed j hj)⟩

/-- Only a SELECT without wildcards has a known number of columns. -/
theorem Select.columnCount_eq_some_iff {s : Select} {n : Nat} : s.columnCount = some n ↔
    (∀ c ∈ s.columns, c.expr.isWildcard = false) ∧ s.columns.length = n := by
  have plain : s.columns.any (·.expr.isWildcard) = false ↔
      ∀ c ∈ s.columns, c.expr.isWildcard = false := by
    simp only [List.any_eq_false, Bool.not_eq_true]
  rw [columnCount, ← plain]
  cases s.columns.any (·.expr.isWildcard) <;> simp

namespace Query

/-! ## The tree of branches -/

/-- `q'` is `q` itself or stands in it below branches of compounds only. -/
inductive Reaches : Query → Query → Prop
  | here (q : Query) : q.Reaches q
  | branch {c : Compound} {q q' : Query} (h : q ∈ c.branches) (below : q.Reaches q') :
    (compound c).Reaches q'

theorem reaches_compound {c : Compound} {q : Query} : (compound c).Reaches q ↔
    q = compound c ∨ ∃ b ∈ c.branches, b.Reaches q := by
  constructor
  · intro r
    cases r with
    | here => exact .inl rfl
    | branch h below => exact .inr ⟨_, h, below⟩
  · rintro (rfl | ⟨b, h, below⟩)
    · exact .here _
    · exact .branch h below

/-- A SELECT in a compound stands in one of its branches. -/
theorem compound_reaches_select {c : Compound} {s : Select} :
    (compound c).Reaches (select s) ↔ ∃ b ∈ c.branches, b.Reaches (select s) := by
  rw [reaches_compound]
  constructor
  · rintro (h | h)
    · cases h
    · exact h
  · exact .inr

/-- Induction over the branches of compounds, targets of FROM not entered. -/
theorem branch_induction {P : Query → Prop} (ofSelect : ∀ s, P (select s))
    (ofCompound : ∀ c, (∀ b ∈ c.branches, P b) → P (compound c)) (q : Query) : P q := by
  have general : (∀ _ : Expr, True) ∧ ∀ q : Query, P q := by
    refine tree_induction (fun _ _ _ => trivial) fun q _ ih => ?_
    cases q with
    | select s => exact ofSelect s
    | compound c => exact ofCompound c ih
  exact general.2 q

/-! ## Numbers of columns -/

theorem branchCount_eq_findSome? (qs : List Query) : branchCount qs = qs.findSome? columnCount := by
  induction qs with
  | nil => rfl
  | cons q qs ih =>
    rw [branchCount, List.findSome?_cons]
    cases q.columnCount with
    | none => exact ih
    | some n => rfl

theorem columnCount_compound (c : Compound) :
    (compound c).columnCount = c.branches.findSome? columnCount := by
  obtain ⟨op, branches, orderBy, limit, offset⟩ := c
  rw [columnCount, branchCount_eq_findSome?]

/-- The number of columns of a query is that of one of its SELECTs. -/
theorem exists_select_of_columnCount {q : Query} {n : Nat} (h : q.columnCount = some n) :
    ∃ s, q.Reaches (select s) ∧ s.columnCount = some n := by
  induction q using branch_induction with
  | ofSelect s => exact ⟨s, .here _, h⟩
  | ofCompound c ih =>
    rw [columnCount_compound] at h
    obtain ⟨b, hb, count⟩ := List.exists_of_findSome?_eq_some h
    obtain ⟨s, below, hs⟩ := ih b hb count
    exact ⟨s, .branch hb below, hs⟩

/-- A query has no known number of columns only if none of its SELECTs has one. -/
theorem columnCount_eq_none_of_reaches {q : Query} {s : Select} (h : q.columnCount = none)
    (r : q.Reaches (select s)) : s.columnCount = none := by
  induction q using branch_induction with
  | ofSelect s' =>
    cases r
    exact h
  | ofCompound c ih =>
    rw [columnCount_compound, List.findSome?_eq_none_iff] at h
    obtain ⟨b, hb, below⟩ := compound_reaches_select.1 r
    exact ih b hb (h b hb) below

/-- All SELECTs in the branches have `n` columns, those aside whose number is not known. -/
def HasWidth (n : Nat) (q : Query) : Prop :=
  ∀ s, q.Reaches (select s) → ∀ m ∈ s.columnCount, m = n

theorem hasWidth_select {s : Select} (n : Nat) :
    (select s).HasWidth n ↔ ∀ m ∈ s.columnCount, m = n := by
  constructor
  · intro h
    exact h s (.here _)
  · intro h s' r
    cases r
    exact h

theorem hasWidth_compound {c : Compound} {n : Nat} :
    (compound c).HasWidth n ↔ ∀ b ∈ c.branches, b.HasWidth n := by
  constructor
  · intro h b hb s r
    exact h s (.branch hb r)
  · intro h s r
    obtain ⟨b, hb, below⟩ := compound_reaches_select.1 r
    exact h b hb s below

/-- For a query whose SELECTs agree, the one number that is compared stands for all. -/
theorem HasWidth.iff_columnCount {q : Query} {n : Nat} (h : q.HasWidth n) (m : Nat) :
    q.HasWidth m ↔ ∀ k ∈ q.columnCount, k = m := by
  cases count : q.columnCount with
  | none =>
    constructor
    · intro _ k hk
      cases hk
    · intro _ s r k hk
      rw [columnCount_eq_none_of_reaches count r] at hk
      cases hk
  | some k =>
    obtain ⟨s, r, hs⟩ := exists_select_of_columnCount count
    have same : k = n := h s r k hs
    constructor
    · intro hm k' hk'
      cases hk'
      exact hm s r k hs
    · intro hk
      have : n = m := same.symm.trans (hk k rfl)
      exact this ▸ h

/-! ## Checks -/

/-- The branches pass if each passes alone and the numbers of columns that are known agree with one
another and with the one that is given. -/
theorem checkBranches_eq_ok_iff {op : SetOp} {expected : Option Nat} {qs : List Query} :
    checkBranches op expected qs = .ok () ↔ (∀ q ∈ qs, q.check = .ok ()) ∧
      ∃ n, (∀ m ∈ expected, m = n) ∧ ∀ q ∈ qs, ∀ m ∈ q.columnCount, m = n := by
  induction qs generalizing expected with
  | nil =>
    refine ⟨fun _ => ⟨fun q hq => absurd hq List.not_mem_nil, expected.getD 0, fun m hm => ?_,
      fun q hq => absurd hq List.not_mem_nil⟩, fun _ => rfl⟩
    rw [Option.mem_def.1 hm, Option.getD_some]
  | cons q qs ih =>
    refine check_bind_eq_ok_iff.trans ?_
    rw [List.forall_mem_cons, and_assoc]
    refine and_congr_right' ?_
    simp only [List.forall_mem_cons]
    cases q.columnCount with
    | none =>
      rw [ih]
      simp
    | some n =>
      cases expected with
      | none =>
        show checkBranches op (some n) qs = .ok () ↔ _
        rw [ih]
        simp
      | some first =>
        show (require (n == first) _ >>= fun _ => checkBranches op (some first) qs) = .ok () ↔ _
        rw [check_bind_eq_ok_iff, require_eq_ok_iff, beq_iff_eq, ih]
        constructor
        · rintro ⟨rfl, passes, k, agree, rest⟩
          exact ⟨passes, k, agree, agree, rest⟩
        · rintro ⟨passes, k, agree, hn, rest⟩
          exact ⟨(hn n rfl).trans (agree first rfl).symm, passes, k, agree, rest⟩

/-- A query passes the check if every compound in its branches has two of them, every SELECT passes
its own check, and the numbers of columns that are known agree. -/
theorem check_eq_ok_iff {q : Query} : q.check = .ok () ↔
    (∀ c, q.Reaches (compound c) → 2 ≤ c.branches.length) ∧
      (∀ s, q.Reaches (select s) → s.check = .ok ()) ∧ ∃ n, q.HasWidth n := by
  induction q using branch_induction with
  | ofSelect s =>
    rw [check]
    constructor
    · intro passes
      refine ⟨fun c r => ?_, fun s' r => ?_, s.columnCount.getD 0, ?_⟩
      · cases r
      · cases r
        exact passes
      · rw [hasWidth_select]
        intro m hm
        rw [Option.mem_def.1 hm, Option.getD_some]
    · rintro ⟨-, selects, -⟩
      exact selects s (.here _)
  | ofCompound c ih =>
    have unfolded : (compound c).check = .ok () ↔
        2 ≤ c.branches.length ∧ checkBranches c.op none c.branches = .ok () := by
      obtain ⟨op, branches, orderBy, limit, offset⟩ := c
      rw [check, Compound.check, check_bind_eq_ok_iff, require_eq_ok_iff, decide_eq_true_eq]
    rw [unfolded, checkBranches_eq_ok_iff]
    constructor
    · rintro ⟨enough, passes, n, -, agree⟩
      refine ⟨fun c' r => ?_, fun s r => ?_, n, hasWidth_compound.2 fun b hb => ?_⟩
      · rcases reaches_compound.1 r with h | ⟨b, hb, below⟩
        · cases h
          exact enough
        · exact ((ih b hb).1 (passes b hb)).1 c' below
      · obtain ⟨b, hb, below⟩ := compound_reaches_select.1 r
        exact ((ih b hb).1 (passes b hb)).2.1 s below
      · obtain ⟨-, -, m, width⟩ := (ih b hb).1 (passes b hb)
        exact (width.iff_columnCount n).2 (agree b hb)
    · rintro ⟨compounds, selects, n, width⟩
      have widths := hasWidth_compound.1 width
      refine ⟨compounds c (.here _), fun b hb => (ih b hb).2 ⟨?_, ?_, n, widths b hb⟩, n, ?_, ?_⟩
      · intro c' below
        exact compounds c' (.branch hb below)
      · intro s below
        exact selects s (.branch hb below)
      · intro m hm
        cases hm
      · intro b hb
        exact ((widths b hb).iff_columnCount n).1 (widths b hb)

end Query

/-- The check of a compound decides the rule about the whole tree of its branches. -/
theorem Compound.check_decides_branches (c : Compound) : c.check = .ok () ↔
    (∀ c', (Query.compound c).Reaches (.compound c') → 2 ≤ c'.branches.length) ∧
      (∀ s, (Query.compound c).Reaches (.select s) → s.check = .ok ()) ∧
      ∃ n, ∀ s, (Query.compound c).Reaches (.select s) →
        (∀ col ∈ s.columns, col.expr.isWildcard = false) → s.columns.length = n := by
  have widths (n : Nat) : (Query.compound c).HasWidth n ↔
      ∀ s, (Query.compound c).Reaches (.select s) →
        (∀ col ∈ s.columns, col.expr.isWildcard = false) → s.columns.length = n := by
    refine forall₂_congr fun s _ => ?_
    constructor
    · intro h plain
      exact h _ (Select.columnCount_eq_some_iff.2 ⟨plain, rfl⟩)
    · intro h m hm
      obtain ⟨plain, rfl⟩ := Select.columnCount_eq_some_iff.1 hm
      exact h plain
  have asQuery : c.check = (Query.compound c).check := by rw [Query.check]
  simp only [asQuery, Query.check_eq_ok_iff, widths]

end BoundSql
