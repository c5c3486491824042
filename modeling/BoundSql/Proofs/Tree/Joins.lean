import BoundSql.Proofs.Tree.Body

/-!
# The joins of a FROM

A join says at which target it stands. Where the joins of every FROM stand in order, one at each
target but the first, each of them is found at its target.
-/

namespace BoundSql

/-- Each target but the first has its join, in order. -/
structure FromClause.Ordered (f : FromClause) : Prop where
  targets : f.targets.length = f.joins.length + 1
  positions : f.joins.map (·.position) = List.range' 1 f.joins.length

/-- The joins of the query itself stand in order. -/
def Query.JoinsOrdered : Query → Prop
  | select s => ∀ f ∈ s.source, f.Ordered
  | compound _ => True

/-- The joins of all queries in the expression stand in order. -/
def Expr.Ordered (e : Expr) : Prop := e.Everywhere (fun _ => True) Query.JoinsOrdered

/-- The joins of the query and of all queries below it stand in order. -/
def Query.Ordered (q : Query) : Prop := q.Everywhere (fun _ => True) JoinsOrdered

/-- The joins of all queries of a statement stand in order. -/
def Body.Ordered (b : Body) : Prop := (∀ e ∈ b.parts, e.Ordered) ∧ ∀ q ∈ b.queries, q.Ordered

theorem Expr.ordered_iff {e : Expr} :
    e.Ordered ↔ (∀ x ∈ e.parts, x.Ordered) ∧ ∀ q ∈ e.queries, q.Ordered :=
  ⟨fun h => ⟨h.parts, h.queries⟩, fun h => ⟨trivial, h.1, h.2⟩⟩

theorem Query.ordered_iff {q : Query} :
    q.Ordered ↔ q.JoinsOrdered ∧ (∀ x ∈ q.parts, x.Ordered) ∧ ∀ q' ∈ q.queries, q'.Ordered :=
  ⟨fun h => ⟨h.here, h.parts, h.queries⟩, fun h => ⟨h.1, h.2.1, h.2.2⟩⟩

namespace FromClause

variable {f : FromClause}

theorem queries_push (f : FromClause) (t : Target) (js : List Join) :
    queries ⟨f.targets ++ [t], js⟩ = f.queries ++ t.rows.query?.toList := by
  cases h : t.rows.query? <;> simp [queries, h]

theorem parts_push (f : FromClause) (ts : List Target) (j : Join) :
    parts ⟨ts, f.joins ++ [j]⟩ = f.parts ++ j.condition.expr?.toList := by
  cases h : j.condition.expr? <;> simp [parts, h]

theorem ordered_single (t : Target) : Ordered ⟨[t], []⟩ := ⟨rfl, rfl⟩

/-- A target that is joined at the end keeps the order. -/
theorem Ordered.push (h : f.Ordered) (t : Target) (kind : JoinKind) (condition : JoinCondition) :
    Ordered ⟨f.targets ++ [t], f.joins ++ [⟨kind, f.targets.length, condition⟩]⟩ := by
  refine ⟨by simp [h.targets], ?_⟩
  rw [List.map_append, h.positions, List.length_append, List.length_singleton, List.range'_concat,
    h.targets]
  simp [Nat.add_comm]

/-- At each target but the first stands the join in front of it. -/
theorem Ordered.find?_position (h : f.Ordered) (n : Nat) :
    f.joins.find? (·.position == n + 1) = f.joins[n]? := by
  have general (js : List Join) (base k : Nat)
      (positions : js.map (·.position) = List.range' base js.length) :
      js.find? (·.position == base + k) = js[k]? := by
    induction js generalizing base k with
    | nil => rfl
    | cons j js ih =>
      rw [List.map_cons, List.length_cons, List.range'_succ] at positions
      obtain ⟨first, rest⟩ := List.cons_eq_cons.1 positions
      cases k with
      | zero => simp [first]
      | succ k =>
        have next := ih (base + 1) k rest
        rw [List.find?_cons_of_neg (by simp [first]), List.getElem?_cons_succ, ← next]
        simp only [Nat.add_assoc, Nat.add_comm 1 k]
  rw [Nat.add_comm]
  exact general f.joins 1 n h.positions

end FromClause

section Mapped

variable {f : Expr → Expr}

theorem Target.length_mapAllM (ts : List Target) :
    (Id.run (mapAllM (fun x => pure (f x)) ts)).length = ts.length := by
  induction ts with
  | nil => rfl
  | cons t ts ih =>
    obtain ⟨rows, label⟩ := t
    cases rows <;> exact congrArg (· + 1) ih

theorem Join.map_position_mapAllM (js : List Join) :
    (Id.run (mapAllM (fun x => pure (f x)) js)).map (·.position) = js.map (·.position) := by
  induction js with
  | nil => rfl
  | cons j js ih =>
    obtain ⟨kind, position, condition⟩ := j
    cases condition <;> exact congrArg (position :: ·) ih

/-- Mapping expressions does not touch the joins. -/
theorem Query.JoinsOrdered.mapped {q : Query} (h : q.JoinsOrdered) : (q.mapped f).JoinsOrdered := by
  cases q with
  | compound c => trivial
  | select s =>
    obtain ⟨distinct, distinctOn, columns, source, condition, groupBy, having, orderBy, limit,
      offset⟩ := s
    cases source with
    | none => exact fun _ hf => by cases hf
    | some c =>
      obtain ⟨targets, joins⟩ := c
      have ordered := h ⟨targets, joins⟩ rfl
      rintro _ ⟨⟩
      have positions := Join.map_position_mapAllM (f := f) joins
      have length := congrArg List.length positions
      rw [List.length_map, List.length_map] at length
      refine ⟨?_, ?_⟩
      · exact (Target.length_mapAllM targets).trans
          (ordered.targets.trans (congrArg (· + 1) length.symm))
      · exact positions.trans (ordered.positions.trans (congrArg (List.range' 1) length.symm))

end Mapped

end BoundSql
