import BoundSql.Tree.Statement
import Mathlib.Algebra.BigOperators.Group.List.Basic
import Mathlib.Algebra.Order.Monoid.WithTop

/-!
# What a tree says, in order

Names, parameters and joins stand in a tree in the order in which they stand in its text. `Weights`
say what each of them is worth in some monoid, and the worth of a tree is the sum over its leaves,
from left to right. Where the order is not known, the worth is `⊤`: this is so for rows bounded by
both LIMIT and OFFSET, which can be written in either order, unless one of them is worth nothing.
-/

namespace BoundSql

/-- What the leaves of trees are worth. -/
structure Weights (N : Type) [AddMonoid N] where
  /-- A part of the name of a column or table, or an alias. -/
  name : String → WithTop N
  /-- The whole name of a column or table. -/
  names : List String → WithTop N := fun parts => (parts.map name).sum
  /-- The name of a function, in one text. -/
  function : String → WithTop N
  /-- The table whose columns a wildcard stands for, in one text. -/
  wildcard : String → WithTop N
  /-- The column that UPDATE sets, in one text. -/
  assigned : String → WithTop N
  collation : String → WithTop N
  type : DataType → WithTop N
  param : ParamRef → WithTop N
  join : JoinKind → WithTop N

namespace Weights

variable {N : Type} [AddMonoid N] (v : Weights N)

/-- Names of columns with commas between them. -/
def columns (names : List String) : WithTop N := (names.map v.name).sum

/-- A name that may be missing. -/
def nameOption (label : Option String) : WithTop N := (label.toList.map v.name).sum

@[simp] theorem nameOption_none : v.nameOption none = 0 := rfl

@[simp] theorem nameOption_some (name : String) : v.nameOption (some name) = v.name name := by
  simp [nameOption]

/-- A collation that may be missing. -/
def collationOption (collation : Option String) : WithTop N :=
  (collation.toList.map v.collation).sum

@[simp] theorem collationOption_none : v.collationOption none = 0 := rfl

@[simp] theorem collationOption_some (name : String) :
    v.collationOption (some name) = v.collation name := by
  simp [collationOption]

end Weights

namespace Worth

variable {N : Type} [AddMonoid N]

open Classical in
/-- Two clauses that stand in either order. -/
noncomputable def either (a b : WithTop N) : WithTop N := if a = 0 ∨ b = 0 then a + b else ⊤

open Classical in
/-- Nothing, if it is known to be nothing. -/
noncomputable def nothing (P : Prop) : WithTop N := if P then 0 else ⊤

theorem zero_le_nothing [Preorder N] (P : Prop) : (0 : WithTop N) ≤ nothing P := by
  unfold nothing
  split
  · exact le_rfl
  · exact le_top

theorem of_nothing {P : Prop} {n : N} (h : nothing P = (↑n : WithTop N)) : P ∧ n = 0 := by
  unfold nothing at h
  split at h
  · exact ⟨‹P›, (WithTop.coe_eq_coe.1 h).symm⟩
  · cases h

open Classical in
theorem nothing_eq_zero {P : Prop} (h : P) : (nothing P : WithTop N) = 0 := if_pos h

/-- If all of several things together are known, each is known to be nothing. -/
theorem of_sum_nothing {α : Type} {P : α → Prop} {xs : List α} {n : N}
    (h : (xs.map fun x => (nothing (P x) : WithTop N)).sum = ↑n) : (∀ x ∈ xs, P x) ∧ n = 0 := by
  induction xs generalizing n with
  | nil => exact ⟨nofun, (WithTop.coe_eq_coe.1 h).symm⟩
  | cons x xs ih =>
    rw [List.map_cons, List.sum_cons] at h
    obtain ⟨a, b, ha, hb, rfl⟩ := WithTop.add_eq_coe.1 h
    obtain ⟨here, rfl⟩ := of_nothing ha.symm
    obtain ⟨below, rfl⟩ := ih hb.symm
    exact ⟨List.forall_mem_cons.2 ⟨here, below⟩, add_zero 0⟩

/-- The targets of a FROM, each behind the first with the join in front of it and the condition
behind it. -/
def joined : List (WithTop N) → List (WithTop N × WithTop N) → WithTop N
  | [], [] => 0
  | t :: ts, (kind, condition) :: js => kind + t + condition + joined ts js
  | _, _ => ⊤

/-- A FROM whose targets and joins are given. -/
def source : List (WithTop N) → List (WithTop N × WithTop N) → WithTop N
  | [], _ => ⊤
  | t :: ts, js => t + joined ts js

end Worth

section

variable {N : Type} [AddMonoid N] (v : Weights N)

mutual

/-- What an expression is worth. -/
noncomputable def Expr.worth : Expr → WithTop N
  | .literal _ => 0
  | .name i => v.names i.parts
  | .wildcard none => 0
  | .wildcard (some table) => v.wildcard table
  | .param p => v.param p
  | .call function _ args => v.function function + Expr.worthAll args
  | .operation _ operands => Expr.worthAll operands
  | .subquery q => q.worth
  | .cases base arms otherwise =>
    Expr.worthOption base + Expr.worthArms arms + Expr.worthOption otherwise
  | .cast e type => e.worth + v.type type

/-- Expressions in a row. -/
noncomputable def Expr.worthAll : List Expr → WithTop N
  | [] => 0
  | e :: es => e.worth + Expr.worthAll es

/-- An expression that may be missing. -/
noncomputable def Expr.worthOption : Option Expr → WithTop N
  | none => 0
  | some e => e.worth

/-- Conditions and results. -/
noncomputable def Expr.worthArms : List (Expr × Expr) → WithTop N
  | [] => 0
  | (w, t) :: arms => w.worth + t.worth + Expr.worthArms arms

/-- What a query is worth. -/
noncomputable def Query.worth : Query → WithTop N
  | .select s => s.worth
  | .compound c => c.worth

/-- What a SELECT is worth. -/
noncomputable def Select.worth : Select → WithTop N
  | ⟨_, distinctOn, columns, source, condition, groupBy, having, orderBy, limit, offset⟩ =>
    Expr.worthOption distinctOn + Column.worthAll columns + FromClause.worthOption source +
      Expr.worthOption condition + Expr.worthAll groupBy + Expr.worthOption having +
      OrderItem.worthAll orderBy + Worth.either (Expr.worthOption limit) (Expr.worthOption offset)

/-- What a compound is worth. -/
noncomputable def Compound.worth : Compound → WithTop N
  | ⟨_, branches, orderBy, limit, offset⟩ =>
    Query.worthAll branches + OrderItem.worthAll orderBy +
      Worth.either (Expr.worthOption limit) (Expr.worthOption offset)

/-- Queries in a row. -/
noncomputable def Query.worthAll : List Query → WithTop N
  | [] => 0
  | q :: qs => q.worth + Query.worthAll qs

/-- Result columns. -/
noncomputable def Column.worthAll : List Column → WithTop N
  | [] => 0
  | ⟨e, label⟩ :: cs => e.worth + v.nameOption label + Column.worthAll cs

/-- Sort keys. -/
noncomputable def OrderItem.worthAll : List OrderItem → WithTop N
  | [] => 0
  | ⟨e, _, collation⟩ :: os => e.worth + v.collationOption collation + OrderItem.worthAll os

/-- A FROM that may be missing. -/
noncomputable def FromClause.worthOption : Option FromClause → WithTop N
  | none => 0
  | some ⟨targets, joins⟩ => Worth.source (Target.worths targets) (Join.worths joins)

/-- The targets of a FROM, one by one. -/
noncomputable def Target.worths : List Target → List (WithTop N)
  | [] => []
  | ⟨.table i, label⟩ :: ts => (v.names i.parts + v.nameOption label) :: Target.worths ts
  | ⟨.subquery q, label⟩ :: ts => (q.worth + v.nameOption label) :: Target.worths ts

/-- Joins and their conditions, one by one. -/
noncomputable def Join.worths : List Join → List (WithTop N × WithTop N)
  | [] => []
  | ⟨kind, _, .none⟩ :: js => (v.join kind, 0) :: Join.worths js
  | ⟨kind, _, .predicate e⟩ :: js => (v.join kind, e.worth) :: Join.worths js
  | ⟨kind, _, .columns names⟩ :: js => (v.join kind, v.columns names) :: Join.worths js

end

/-- The rows of an INSERT. -/
noncomputable def InsertSource.worth : InsertSource → WithTop N
  | .values rows => (rows.map (Expr.worthAll v)).sum
  | .query q => q.worth v
  | .defaultValues => 0

open Classical in
/-- What a command about transactions is worth. Some dialects do not write the name behind BEGIN. -/
noncomputable def Transaction.worth (t : Transaction) : WithTop N :=
  if t.kind = .begin ∧ v.nameOption t.name ≠ 0 then ⊤ else v.nameOption t.name

/-- What a statement is worth that is taken apart. -/
noncomputable def Body.worth : Body → WithTop N
  | .select s => s.worth v
  | .compound c => c.worth v
  | .insert i => v.names i.table.parts + v.columns i.columns + i.source.worth v
  | .update u =>
    v.names u.table.parts + (u.assignments.map fun a => v.assigned a.column + a.value.worth v).sum +
      Expr.worthOption v u.condition
  | .delete d => v.names d.table.parts + Expr.worthOption v d.condition
  | .transaction t => t.worth v
  | .verbatim _ => ⊤

theorem Transaction.nameOption_le_worth [Preorder N] (t : Transaction) :
    v.nameOption t.name ≤ t.worth v := by
  unfold worth
  split
  · exact le_top
  · exact le_rfl

/-- If it is known what a command is worth, its name is worth it, wherever it is written. -/
theorem Transaction.worth_eq_nameOption {t : Transaction} (known : t.worth v ≠ ⊤) :
    t.worth v = v.nameOption t.name := by
  unfold worth at known ⊢
  split
  · rename_i named
    rw [if_pos named] at known
    exact absurd rfl known
  · rfl

/-- If it is known what BEGIN is worth, it is nothing. -/
theorem Transaction.worth_begin {t : Transaction} (begins : t.kind = .begin) (known : t.worth v ≠ ⊤) :
    t.worth v = 0 := by
  have same := worth_eq_nameOption v known
  by_contra named
  rw [same] at named
  exact known (if_pos ⟨begins, named⟩)

/-! ## Rows, and trees put together -/

theorem Expr.worthAll_eq_sum (es : List Expr) : worthAll v es = (es.map (worth v)).sum := by
  induction es with
  | nil => rfl
  | cons e es ih => rw [worthAll, ih, List.map_cons, List.sum_cons]

@[simp] theorem Expr.worthAll_append (es es' : List Expr) :
    worthAll v (es ++ es') = worthAll v es + worthAll v es' := by
  simp [worthAll_eq_sum]

@[simp] theorem Expr.worthArms_append (arms arms' : List (Expr × Expr)) :
    worthArms v (arms ++ arms') = worthArms v arms + worthArms v arms' := by
  induction arms with
  | nil => simp [worthArms]
  | cons arm arms ih => simp [worthArms, ih, add_assoc]

theorem Query.worthAll_eq_sum (qs : List Query) : worthAll v qs = (qs.map (worth v)).sum := by
  induction qs with
  | nil => rfl
  | cons q qs ih => rw [worthAll, ih, List.map_cons, List.sum_cons]

/-- What a result column is worth. -/
noncomputable def Column.worth (c : Column) : WithTop N := c.expr.worth v + v.nameOption c.label

theorem Column.worthAll_eq_sum (cs : List Column) : worthAll v cs = (cs.map (worth v)).sum := by
  induction cs with
  | nil => rfl
  | cons c cs ih =>
    obtain ⟨e, label⟩ := c
    rw [worthAll, ih, List.map_cons, List.sum_cons, worth]

/-- What a sort key is worth. -/
noncomputable def OrderItem.worth (o : OrderItem) : WithTop N := o.expr.worth v + v.collationOption o.collation

theorem OrderItem.worthAll_eq_sum (os : List OrderItem) :
    worthAll v os = (os.map (worth v)).sum := by
  induction os with
  | nil => rfl
  | cons o os ih =>
    obtain ⟨e, order, collation⟩ := o
    rw [worthAll, ih, List.map_cons, List.sum_cons, worth]

/-- What the rows of a target are worth. -/
noncomputable def TableSource.worth : TableSource → WithTop N
  | .table i => v.names i.parts
  | .subquery q => q.worth v

/-- What a target is worth. -/
noncomputable def Target.worth (t : Target) : WithTop N := t.rows.worth v + v.nameOption t.label

theorem Target.worths_eq_map (ts : List Target) : worths v ts = ts.map (worth v) := by
  induction ts with
  | nil => rfl
  | cons t ts ih =>
    obtain ⟨rows, label⟩ := t
    cases rows <;> rw [worths, ih] <;> rfl

/-- What the condition of a join is worth. -/
noncomputable def JoinCondition.worth : JoinCondition → WithTop N
  | .none => 0
  | .predicate e => e.worth v
  | .columns names => v.columns names

/-- What a join and its condition are worth. -/
noncomputable def Join.worth (j : Join) : WithTop N × WithTop N := (v.join j.kind, j.condition.worth v)

theorem Join.worths_eq_map (js : List Join) : worths v js = js.map (worth v) := by
  induction js with
  | nil => rfl
  | cons j js ih =>
    obtain ⟨kind, position, condition⟩ := j
    cases condition <;> rw [worths, ih] <;> rfl

theorem Worth.joined_concat (ts : List (WithTop N)) (t : WithTop N)
    (js : List (WithTop N × WithTop N)) (kind condition : WithTop N) :
    joined (ts ++ [t]) (js ++ [(kind, condition)]) = joined ts js + (kind + t + condition) := by
  induction ts generalizing js with
  | nil =>
    cases js with
    | nil => simp [joined]
    | cons j js => cases js <;> simp [joined]
  | cons t' ts ih =>
    cases js with
    | nil => cases ts <;> simp [joined]
    | cons j js => simp [joined, ih, add_assoc]

/-- A target that is joined at the end. -/
theorem Worth.source_concat (ts : List (WithTop N)) (t : WithTop N)
    (js : List (WithTop N × WithTop N)) (kind condition : WithTop N) :
    source (ts ++ [t]) (js ++ [(kind, condition)]) = source ts js + (kind + t + condition) := by
  cases ts with
  | nil => cases js <;> simp [source, joined]
  | cons t' ts => simp [source, joined_concat, add_assoc]

/-- What a FROM is worth. -/
noncomputable def FromClause.worth (f : FromClause) : WithTop N :=
  Worth.source (Target.worths v f.targets) (Join.worths v f.joins)

theorem FromClause.worth_single (t : Target) : worth v ⟨[t], []⟩ = t.worth v := by
  simp [worth, Target.worths_eq_map, Join.worths_eq_map, Worth.source, Worth.joined]

theorem FromClause.worth_push (f : FromClause) (t : Target) (j : Join) :
    worth v ⟨f.targets ++ [t], f.joins ++ [j]⟩ =
      f.worth v + (v.join j.kind + t.worth v + j.condition.worth v) := by
  simp only [worth, Target.worths_eq_map, Join.worths_eq_map, List.map_append, List.map_cons,
    List.map_nil]
  exact Worth.source_concat ..

/-- Two clauses of which one is worth nothing, in the other order. -/
theorem Worth.le_either [Preorder N] (a b : WithTop N) : a + b ≤ either a b := by
  unfold either
  split
  · exact le_rfl
  · exact le_top

theorem Worth.le_either_swap [Preorder N] (a b : WithTop N) : b + a ≤ either a b := by
  unfold either
  split
  · rename_i h
    rcases h with rfl | rfl <;> simp
  · exact le_top

@[simp] theorem Worth.either_zero_right (a : WithTop N) : either a 0 = a := by simp [either]

end

end BoundSql
