import BoundSql.Tree.Statement

/-!
# Equality of trees

Whether two trees are equal can be decided: `Expr.same` and its relatives compare them part by part,
and `Expr.same_iff` says that this is equality.
-/

namespace BoundSql

mutual

/-- Compares expressions. -/
def Expr.same : Expr → Expr → Bool
  | .literal a, .literal b => a == b
  | .name a, .name b => a == b
  | .param a, .param b => a == b
  | .call f d es, .call f' d' es' => f == f' && d == d' && Expr.sameAll es es'
  | .operation op es, .operation op' es' => op == op' && Expr.sameAll es es'
  | .subquery q, .subquery q' => q.same q'
  | .cases b arms o, .cases b' arms' o' =>
    Expr.sameOption b b' && Expr.sameArms arms arms' && Expr.sameOption o o'
  | .cast e t, .cast e' t' => e.same e' && t == t'
  | .wildcard t, .wildcard t' => t == t'
  | _, _ => false

/-- Compares expressions that may be missing. -/
def Expr.sameOption : Option Expr → Option Expr → Bool
  | none, none => true
  | some e, some e' => e.same e'
  | _, _ => false

/-- Compares expressions in a row. -/
def Expr.sameAll : List Expr → List Expr → Bool
  | [], [] => true
  | e :: es, e' :: es' => e.same e' && Expr.sameAll es es'
  | _, _ => false

/-- Compares conditions and results. -/
def Expr.sameArms : List (Expr × Expr) → List (Expr × Expr) → Bool
  | [], [] => true
  | (w, t) :: arms, (w', t') :: arms' => w.same w' && t.same t' && Expr.sameArms arms arms'
  | _, _ => false

/-- Compares queries. -/
def Query.same : Query → Query → Bool
  | .select s, .select s' => s.same s'
  | .compound c, .compound c' => c.same c'
  | _, _ => false

/-- Compares SELECTs. -/
def Select.same : Select → Select → Bool
  | ⟨d, on, cs, f, w, g, h, o, l, m⟩, ⟨d', on', cs', f', w', g', h', o', l', m'⟩ =>
    d == d' && Expr.sameOption on on' && Column.sameAll cs cs' && FromClause.sameOption f f' &&
      Expr.sameOption w w' && Expr.sameAll g g' && Expr.sameOption h h' &&
      OrderItem.sameAll o o' && Expr.sameOption l l' && Expr.sameOption m m'

/-- Compares compounds. -/
def Compound.same : Compound → Compound → Bool
  | ⟨op, qs, o, l, m⟩, ⟨op', qs', o', l', m'⟩ =>
    op == op' && Query.sameAll qs qs' && OrderItem.sameAll o o' && Expr.sameOption l l' &&
      Expr.sameOption m m'

/-- Compares queries in a row. -/
def Query.sameAll : List Query → List Query → Bool
  | [], [] => true
  | q :: qs, q' :: qs' => q.same q' && Query.sameAll qs qs'
  | _, _ => false

/-- Compares result columns. -/
def Column.sameAll : List Column → List Column → Bool
  | [], [] => true
  | ⟨e, l⟩ :: cs, ⟨e', l'⟩ :: cs' => e.same e' && l == l' && Column.sameAll cs cs'
  | _, _ => false

/-- Compares sort keys. -/
def OrderItem.sameAll : List OrderItem → List OrderItem → Bool
  | [], [] => true
  | ⟨e, o, c⟩ :: os, ⟨e', o', c'⟩ :: os' =>
    e.same e' && o == o' && c == c' && OrderItem.sameAll os os'
  | _, _ => false

/-- Compares FROM clauses that may be missing. -/
def FromClause.sameOption : Option FromClause → Option FromClause → Bool
  | none, none => true
  | some ⟨ts, js⟩, some ⟨ts', js'⟩ => Target.sameAll ts ts' && Join.sameAll js js'
  | _, _ => false

/-- Compares targets. -/
def Target.sameAll : List Target → List Target → Bool
  | [], [] => true
  | ⟨r, l⟩ :: ts, ⟨r', l'⟩ :: ts' => r.same r' && l == l' && Target.sameAll ts ts'
  | _, _ => false

/-- Compares sources of rows. -/
def TableSource.same : TableSource → TableSource → Bool
  | .table i, .table i' => i == i'
  | .subquery q, .subquery q' => q.same q'
  | _, _ => false

/-- Compares joins. -/
def Join.sameAll : List Join → List Join → Bool
  | [], [] => true
  | ⟨k, p, c⟩ :: js, ⟨k', p', c'⟩ :: js' =>
    k == k' && p == p' && c.same c' && Join.sameAll js js'
  | _, _ => false

/-- Compares join conditions. -/
def JoinCondition.same : JoinCondition → JoinCondition → Bool
  | .none, .none => true
  | .predicate e, .predicate e' => e.same e'
  | .columns ns, .columns ns' => ns == ns'
  | _, _ => false

end

mutual

theorem Expr.same_iff : ∀ (a b : Expr), a.same b = true ↔ a = b
  | .literal _, b => by cases b <;> simp [Expr.same]
  | .name _, b => by cases b <;> simp [Expr.same]
  | .param _, b => by cases b <;> simp [Expr.same]
  | .call _ _ es, b => by cases b <;> simp [Expr.same, Expr.sameAll_iff es, and_assoc]
  | .operation _ es, b => by cases b <;> simp [Expr.same, Expr.sameAll_iff es]
  | .subquery q, b => by cases b <;> simp [Expr.same, Query.same_iff q]
  | .cases base arms otherwise, b => by
    cases b <;>
      simp [Expr.same, Expr.sameOption_iff base, Expr.sameArms_iff arms,
        Expr.sameOption_iff otherwise, and_assoc]
  | .cast e _, b => by cases b <;> simp [Expr.same, Expr.same_iff e]
  | .wildcard _, b => by cases b <;> simp [Expr.same]
termination_by structural a => a

theorem Expr.sameOption_iff : ∀ (a b : Option Expr), Expr.sameOption a b = true ↔ a = b
  | none, b => by cases b <;> simp [Expr.sameOption]
  | some e, b => by cases b <;> simp [Expr.sameOption, Expr.same_iff e]
termination_by structural a => a

theorem Expr.sameAll_iff : ∀ (a b : List Expr), Expr.sameAll a b = true ↔ a = b
  | [], b => by cases b <;> simp [Expr.sameAll]
  | e :: es, b => by
    cases b <;> simp [Expr.sameAll, Expr.same_iff e, Expr.sameAll_iff es]
termination_by structural a => a

theorem Expr.sameArms_iff : ∀ (a b : List (Expr × Expr)), Expr.sameArms a b = true ↔ a = b
  | [], b => by cases b <;> simp [Expr.sameArms]
  | (w, t) :: arms, [] => by simp [Expr.sameArms]
  | (w, t) :: arms, (w', t') :: arms' => by
    simp [Expr.sameArms, Expr.same_iff w, Expr.same_iff t, Expr.sameArms_iff arms]
termination_by structural a => a

theorem Query.same_iff : ∀ (a b : Query), a.same b = true ↔ a = b
  | .select s, b => by cases b <;> simp [Query.same, Select.same_iff s]
  | .compound c, b => by cases b <;> simp [Query.same, Compound.same_iff c]
termination_by structural a => a

theorem Select.same_iff : ∀ (a b : Select), a.same b = true ↔ a = b
  | ⟨d, on, cs, f, w, g, h, o, l, m⟩, b => by
    cases b
    simp [Select.same, Expr.sameOption_iff on, Expr.sameOption_iff w,
      Expr.sameOption_iff h, Expr.sameOption_iff l, Expr.sameOption_iff m,
      Column.sameAll_iff cs, FromClause.sameOption_iff f,
      Expr.sameAll_iff g, OrderItem.sameAll_iff o, and_assoc]
termination_by structural a => a

theorem Compound.same_iff : ∀ (a b : Compound), a.same b = true ↔ a = b
  | ⟨op, qs, o, l, m⟩, b => by
    cases b
    simp [Compound.same, Query.sameAll_iff qs, Expr.sameOption_iff l,
      Expr.sameOption_iff m, OrderItem.sameAll_iff o, and_assoc]
termination_by structural a => a

theorem Query.sameAll_iff : ∀ (a b : List Query), Query.sameAll a b = true ↔ a = b
  | [], b => by cases b <;> simp [Query.sameAll]
  | q :: qs, b => by
    cases b <;> simp [Query.sameAll, Query.same_iff q, Query.sameAll_iff qs]
termination_by structural a => a

theorem Column.sameAll_iff : ∀ (a b : List Column), Column.sameAll a b = true ↔ a = b
  | [], b => by cases b <;> simp [Column.sameAll]
  | ⟨e, l⟩ :: cs, [] => by simp [Column.sameAll]
  | ⟨e, l⟩ :: cs, ⟨e', l'⟩ :: cs' => by
    simp [Column.sameAll, Expr.same_iff e, Column.sameAll_iff cs]
termination_by structural a => a

theorem OrderItem.sameAll_iff : ∀ (a b : List OrderItem), OrderItem.sameAll a b = true ↔ a = b
  | [], b => by cases b <;> simp [OrderItem.sameAll]
  | ⟨e, o, c⟩ :: os, [] => by simp [OrderItem.sameAll]
  | ⟨e, o, c⟩ :: os, ⟨e', o', c'⟩ :: os' => by
    simp [OrderItem.sameAll, Expr.same_iff e, OrderItem.sameAll_iff os, and_assoc]
termination_by structural a => a

theorem FromClause.sameOption_iff :
    ∀ (a b : Option FromClause), FromClause.sameOption a b = true ↔ a = b
  | none, b => by cases b <;> simp [FromClause.sameOption]
  | some ⟨ts, js⟩, none => by simp [FromClause.sameOption]
  | some ⟨ts, js⟩, some ⟨ts', js'⟩ => by
    simp [FromClause.sameOption, Target.sameAll_iff ts, Join.sameAll_iff js]
termination_by structural a => a

theorem Target.sameAll_iff : ∀ (a b : List Target), Target.sameAll a b = true ↔ a = b
  | [], b => by cases b <;> simp [Target.sameAll]
  | ⟨r, l⟩ :: ts, [] => by simp [Target.sameAll]
  | ⟨r, l⟩ :: ts, ⟨r', l'⟩ :: ts' => by
    simp [Target.sameAll, TableSource.same_iff r, Target.sameAll_iff ts]
termination_by structural a => a

theorem TableSource.same_iff : ∀ (a b : TableSource), a.same b = true ↔ a = b
  | .table i, b => by cases b <;> simp [TableSource.same]
  | .subquery q, b => by cases b <;> simp [TableSource.same, Query.same_iff q]
termination_by structural a => a

theorem Join.sameAll_iff : ∀ (a b : List Join), Join.sameAll a b = true ↔ a = b
  | [], b => by cases b <;> simp [Join.sameAll]
  | ⟨k, p, c⟩ :: js, [] => by simp [Join.sameAll]
  | ⟨k, p, c⟩ :: js, ⟨k', p', c'⟩ :: js' => by
    simp [Join.sameAll, JoinCondition.same_iff c, Join.sameAll_iff js, and_assoc]
termination_by structural a => a

theorem JoinCondition.same_iff : ∀ (a b : JoinCondition), a.same b = true ↔ a = b
  | .none, b => by cases b <;> simp [JoinCondition.same]
  | .predicate e, b => by cases b <;> simp [JoinCondition.same, Expr.same_iff e]
  | .columns _, b => by cases b <;> simp [JoinCondition.same]
termination_by structural a => a

end

instance : DecidableEq Expr := fun _ _ => decidable_of_iff _ (Expr.same_iff _ _)

instance : DecidableEq Query := fun _ _ => decidable_of_iff _ (Query.same_iff _ _)

instance : DecidableEq Select := fun _ _ => decidable_of_iff _ (Select.same_iff _ _)

instance : DecidableEq Compound := fun _ _ => decidable_of_iff _ (Compound.same_iff _ _)

deriving instance DecidableEq for InsertSource, Insert, Assignment, Update, Delete, Body, Statement

end BoundSql
