import BoundSql.Proofs.Render.Tests

/-!
# What dialects do not have

A statement that is read can be written for a dialect, its parameters left in place, just if it
holds no construct that the dialect does not have, at whatever depth:
`Statement.Parsed.render_symbolic`.
-/

namespace BoundSql

/-- A construct that some dialect does not have. -/
inductive Construct
  /-- ILIKE or NOT ILIKE. -/
  | ilike
  /-- A match with a regular expression. -/
  | regexp
  | distinctOn
  /-- A RIGHT or FULL join. -/
  | fullJoin
  /-- INTERSECT ALL or EXCEPT ALL. -/
  | setOpAll
  /-- A branch of a compound that only parentheses keep together. -/
  | groupedBranch
  /-- UPDATE with another action on a conflict than IGNORE. -/
  | updateAction
  /-- BEGIN with a mode that is about locks. -/
  | locking
  /-- BEGIN with an isolation level. -/
  | isolation
  deriving DecidableEq, Repr

/-- The dialect does not have the construct. -/
def Dialect.Lacks (d : Dialect) : Construct → Prop
  | .ilike | .regexp | .distinctOn => d ≠ .postgresql
  | .fullJoin | .setOpAll => d = .mysql ∨ d = .sqlite
  | .groupedBranch => d = .sqlite
  | .updateAction | .isolation => d = .mysql
  | .locking => d ≠ .sqlite

/-- The expression itself is the construct. -/
def Expr.Has : Expr → Construct → Prop
  | operation op _, .ilike => op = .ilike ∨ op = .notIlike
  | operation op _, .regexp =>
    op = .regexp ∨ op = .regexpCi ∨ op = .notRegexp ∨ op = .notRegexpCi
  | _, _ => False

/-- The query itself has the construct: a branch needs parentheses if it has ORDER BY, LIMIT or
OFFSET of its own, or is a compound and not the first branch. -/
def Query.Has : Query → Construct → Prop
  | select s, .distinctOn => s.distinctOn.isSome
  | select s, .fullJoin => ∃ f ∈ s.source, ∃ j ∈ f.joins, j.kind = .right ∨ j.kind = .full
  | compound c, .setOpAll => c.op = .intersectAll ∨ c.op = .exceptAll
  | compound c, .groupedBranch =>
    (∃ q ∈ c.branches, q.isBounded) ∨ ∃ b, .compound b ∈ c.branches.tail
  | _, _ => False

/-- The statement itself has the construct. -/
def Body.Has : Body → Construct → Prop
  | update u, .updateAction => ∃ action ∈ u.onConflict, action.toUpper ≠ "IGNORE"
  | transaction t, .locking => t.kind = .begin ∧ ∃ mode ∈ t.mode, mode.isLocking
  | transaction t, .isolation => t.kind = .begin ∧ t.isolation.isSome
  | _, _ => False

/-- The construct stands in the statement, at whatever depth. -/
def Body.Contains (b : Body) (c : Construct) : Prop := b.Has c ∨ b.Somewhere (·.Has c) (·.Has c)

/-- A savepoint command says which savepoint. -/
def Transaction.Named (t : Transaction) : Prop :=
  t.kind ∈ [.savepoint, .rollbackSavepoint, .releaseSavepoint] → t.name.isSome

/-- If the statement is about a savepoint, it says which. -/
def Body.Named (b : Body) : Prop := ∀ t, b = .transaction t → t.Named

/-! ## The constructs of a place -/

section Place

variable {r : RenderContext}

/-- What a dialect does not have it says that it does not have. -/
theorem Dialect.lacks_iff (d : Dialect) :
    (d.ilike = false ↔ d.Lacks .ilike) ∧ (d.regexpOperators = false ↔ d.Lacks .regexp) ∧
      (d.distinctOn = false ↔ d.Lacks .distinctOn) ∧ (d.fullJoin = false ↔ d.Lacks .fullJoin) ∧
      (d.setOpAll = false ↔ d.Lacks .setOpAll) ∧
      (d.parenthesizedBranches = false ↔ d.Lacks .groupedBranch) := by
  cases d <;> simp [Lacks, ilike, regexpOperators, distinctOn, fullJoin, setOpAll,
    parenthesizedBranches]

theorem Operator.isIlike_iff {op : Operator} : op.isIlike ↔ op = .ilike ∨ op = .notIlike := by
  cases op <;> simp [isIlike]

theorem Operator.isRegexp_iff {op : Operator} : op.isRegexp ↔
    op = .regexp ∨ op = .regexpCi ∨ op = .notRegexp ∨ op = .notRegexpCi := by
  cases op <;> simp [isRegexp]

/-- An operator that takes so many operands can be written with them. -/
theorem Operator.isWritten_of_accepts {op : Operator} {n : Nat} (h : op.acceptsOperands n) :
    op.isWritten n := by
  cases op <;> (simp_all [acceptsOperands, arity, isWritten, shape]; try omega)

/-- With parameters left in place, a formed expression fails for a missing operator only. -/
theorem Expr.fails_iff_has (symbolic : r.settings.style ≠ .inline) {e : Expr}
    (formed : e.FormedHere) : (∃ err, e.FailsHere r err) ↔ ∃ c, r.dialect.Lacks c ∧ e.Has c := by
  obtain ⟨ilike, regexp, -⟩ := r.dialect.lacks_iff
  constructor
  · rintro ⟨err, ⟨-, inline, -⟩ | failed | unwritten⟩
    · exact absurd inline symbolic
    · rcases (r.gates_checkOperator _).fails.1 ⟨err, failed⟩ with ⟨is, lacks⟩ | ⟨is, lacks⟩
      · exact ⟨.ilike, ilike.1 lacks, Operator.isIlike_iff.1 is⟩
      · exact ⟨.regexp, regexp.1 lacks, Operator.isRegexp_iff.1 is⟩
    · rw [Operator.isWritten_of_accepts formed] at unwritten
      cases unwritten
  · rintro ⟨c, lacks, has⟩
    cases e with
    | operation op operands =>
      have missing : op.isIlike ∧ r.dialect.ilike = false ∨
          op.isRegexp ∧ r.dialect.regexpOperators = false := by
        cases c with
        | ilike => exact .inl ⟨Operator.isIlike_iff.2 has, ilike.2 lacks⟩
        | regexp => exact .inr ⟨Operator.isRegexp_iff.2 has, regexp.2 lacks⟩
        | _ => exact has.elim
      obtain ⟨err, failed⟩ := (r.gates_checkOperator op).fails.2 missing
      exact ⟨err, .operator failed⟩
    | _ => exact has.elim

theorem Expr.unsupported_of_fails (symbolic : r.settings.style ≠ .inline) (e : Expr)
    (formed : e.FormedHere) {err : SqlError} (h : e.FailsHere r err) :
    ∃ what, err = .render (.unsupported what r.dialect) := by
  rcases h with ⟨-, inline, -⟩ | failed | unwritten
  · exact absurd inline symbolic
  · exact (r.gates_checkOperator _).unsupported err failed
  · rw [Operator.isWritten_of_accepts formed] at unwritten
    cases unwritten

/-- A branch that the dialect would have to put in parentheses is bounded, or a compound and not the
first. -/
theorem Query.grouped_iff {op : SetOp} {n : Nat} {q : Query} :
    q.needsParens op n ∧ (0 < n ∨ q.isBounded) ↔
      q.isBounded ∨ 0 < n ∧ ∃ b, q = .compound b := by
  cases q with
  | select s =>
    simp only [needsParens, isBounded, reduceCtorEq, exists_false, and_false, or_false]
    tauto
  | compound c =>
    simp only [needsParens, isBounded, Bool.or_eq_true, decide_eq_true_eq, compound.injEq,
      exists_eq', and_true]
    tauto

theorem Query.exists_grouped {op : SetOp} {qs : List Query} :
    (∃ n q, qs[n]? = some q ∧ q.needsParens op n ∧ (0 < n ∨ q.isBounded)) ↔
      (∃ q ∈ qs, q.isBounded) ∨ ∃ b, .compound b ∈ qs.tail := by
  simp only [grouped_iff, List.mem_iff_getElem?, List.getElem?_tail]
  constructor
  · rintro ⟨n, q, at', bounded | ⟨later, b, rfl⟩⟩
    · exact .inl ⟨q, ⟨n, at'⟩, bounded⟩
    · exact .inr ⟨b, n - 1, by rwa [Nat.sub_add_cancel later]⟩
  · rintro (⟨q, ⟨n, at'⟩, bounded⟩ | ⟨b, n, at'⟩)
    · exact ⟨n, q, at', .inl bounded⟩
    · exact ⟨n + 1, _, at', .inr ⟨Nat.succ_pos n, b, rfl⟩⟩

/-- A query by itself fails for what the dialect does not have. -/
theorem Query.fails_iff_has {q : Query} :
    (∃ err, q.FailsHere r err) ↔ ∃ c, r.dialect.Lacks c ∧ q.Has c := by
  obtain ⟨-, -, distinctOn, fullJoin, setOpAll, grouped⟩ := r.dialect.lacks_iff
  constructor
  · rintro ⟨err, failed | ⟨source, member, failed⟩ | failed | ⟨at', failed⟩⟩
    · obtain ⟨stands, lacks⟩ := (r.gates_checkDistinctOn _).fails.1 ⟨err, failed⟩
      exact ⟨.distinctOn, distinctOn.1 lacks, stands⟩
    · obtain ⟨kind, lacks⟩ := (r.gates_checkJoin _).fails.1 ⟨err, failed⟩
      exact ⟨.fullJoin, fullJoin.1 lacks, _, source, _, member, kind.symm⟩
    · obtain ⟨op, lacks⟩ := (r.gates_checkSetOp _).fails.1 ⟨err, failed⟩
      exact ⟨.setOpAll, setOpAll.1 lacks, op⟩
    · obtain ⟨needs, lacks, where'⟩ := (r.gates_branch _ _ _ _).fails.1 ⟨err, failed⟩
      exact ⟨.groupedBranch, grouped.1 lacks, exists_grouped.1 ⟨_, _, at', needs, where'⟩⟩
  · rintro ⟨c, lacks, has⟩
    cases q with
    | select s =>
      cases c with
      | distinctOn =>
        obtain ⟨err, failed⟩ := (r.gates_checkDistinctOn _).fails.2 ⟨has, distinctOn.2 lacks⟩
        exact ⟨err, .distinctOn failed⟩
      | fullJoin =>
        obtain ⟨f, source, j, member, kind⟩ := has
        obtain ⟨err, failed⟩ := (r.gates_checkJoin _).fails.2 ⟨kind.symm, fullJoin.2 lacks⟩
        exact ⟨err, .join source member failed⟩
      | _ => exact has.elim
    | compound b =>
      cases c with
      | setOpAll =>
        obtain ⟨err, failed⟩ := (r.gates_checkSetOp _).fails.2 ⟨has, setOpAll.2 lacks⟩
        exact ⟨err, .setOp failed⟩
      | groupedBranch =>
        obtain ⟨n, q, at', needs, where'⟩ := exists_grouped.2 has
        obtain ⟨err, failed⟩ :=
          (r.gates_branch b.op n q []).fails.2 ⟨needs, grouped.2 lacks, where'⟩
        exact ⟨err, .branch at' failed⟩
      | _ => exact has.elim

/-- A command that names its savepoint fails only as BEGIN, for its options. -/
theorem RenderContext.gates_transaction (r : RenderContext) {t : Transaction} (named : t.Named) :
    Gates r.dialect (t.kind = .begin ∧ (r.dialect = .mysql ∧ t.isolation.isSome ∨
      (∃ m ∈ t.mode, m.isLocking) ∧ r.dialect ≠ .sqlite)) (r.transaction t) := by
  have savepoint (ws : List String) (kind : t.kind ∈ [.savepoint, .rollbackSavepoint,
      .releaseSavepoint]) : Gates r.dialect False (r.savepoint t ws) := by
    obtain ⟨name, given⟩ := Option.isSome_iff_exists.1 (named kind)
    rw [RenderContext.savepoint, given]
    exact .ok _ _
  unfold transaction
  split
  next kind => exact (r.gates_beginPhrase t).congr (by simp [kind])
  next kind => exact (Gates.ok _ _).congr (by simp [kind])
  next kind => exact (Gates.ok _ _).congr (by simp [kind])
  next kind => exact (savepoint _ (by simp [kind])).congr (by simp [kind])
  next kind => exact (savepoint _ (by simp [kind])).congr (by simp [kind])
  next kind => exact (savepoint _ (by simp [kind])).congr (by simp [kind])

/-- With parameters left in place, a statement by itself fails for what the dialect does not have,
if it does not leave out the name of a savepoint. -/
theorem Body.fails_iff_has (symbolic : r.settings.style ≠ .inline) {b : Body} (named : b.Named) :
    (∃ err, b.FailsHere r err) ↔ ∃ c, r.dialect.Lacks c ∧ b.Has c := by
  constructor
  · rintro ⟨err, failed | @⟨t, _, failed⟩ | ⟨-, -, inline, -⟩⟩
    · obtain ⟨mysql, action⟩ := (r.gates_updateWords _).fails.1 ⟨err, failed⟩
      exact ⟨.updateAction, mysql, action⟩
    · obtain ⟨kind, ⟨mysql, level⟩ | ⟨mode, other⟩⟩ :=
        (r.gates_transaction (named t rfl)).fails.1 ⟨_, failed⟩
      · exact ⟨.isolation, mysql, kind, level⟩
      · exact ⟨.locking, other, kind, mode⟩
    · exact absurd inline symbolic
  · rintro ⟨c, lacks, has⟩
    cases b with
    | update u =>
      cases c with
      | updateAction =>
        obtain ⟨err, failed⟩ := (r.gates_updateWords _).fails.2 ⟨lacks, has⟩
        exact ⟨err, .update failed⟩
      | _ => exact has.elim
    | transaction t =>
      have missing : t.kind = .begin ∧ (r.dialect = .mysql ∧ t.isolation.isSome ∨
          (∃ m ∈ t.mode, m.isLocking) ∧ r.dialect ≠ .sqlite) := by
        cases c with
        | isolation => exact ⟨has.1, .inl ⟨lacks, has.2⟩⟩
        | locking => exact ⟨has.1, .inr ⟨has.2, lacks⟩⟩
        | _ => exact has.elim
      obtain ⟨err, failed⟩ := (r.gates_transaction (named t rfl)).fails.2 missing
      exact ⟨err, .transaction failed⟩
    | _ => exact has.elim

end Place

/-! ## Tests for NULL -/

section Tests

variable {isNull : ParamRef → Bool} {c : Construct}

namespace Expr

theorem somewhere_operation {op : Operator} {operands : List Expr}
    (here : ¬ (operation op operands).Has c) :
    (operation op operands).Somewhere (·.Has c) (·.Has c) ↔
      ∃ e ∈ operands, e.Somewhere (·.Has c) (·.Has c) := by
  simp [somewhere_iff (e := operation op operands), here, parts, queries]

theorem not_somewhere_of_isNullParam {e : Expr} (null : e.isNullParam isNull) :
    ¬ e.Somewhere (·.Has c) (·.Has c) := by
  cases e with
  | param p => simp [somewhere_iff (e := param p), Has, parts, queries]
  | _ => cases null

/-- The side of a comparison with NULL that goes is no construct and holds none. -/
theorem somewhere_comparedWithNull? {a b x : Expr} (h : comparedWithNull? isNull a b = some x) :
    x.Somewhere (·.Has c) (·.Has c) ↔ ∃ e ∈ [a, b], e.Somewhere (·.Has c) (·.Has c) := by
  unfold comparedWithNull? at h
  split at h
  · rename_i right
    cases h
    have gone := not_somewhere_of_isNullParam (c := c) (Bool.and_eq_true_iff.1 right).1
    simp [gone]
  · split at h
    · rename_i left
      cases h
      have gone := not_somewhere_of_isNullParam (c := c) (Bool.and_eq_true_iff.1 left).1
      simp [gone]
    · cases h

/-- A test for NULL holds the constructs of the comparison that it stands for. -/
theorem somewhere_testForNull (e : Expr) : (testForNull isNull e).Somewhere (·.Has c) (·.Has c) ↔
    e.Somewhere (·.Has c) (·.Has c) := by
  have here (op : Operator) (operands : List Expr) (h : op ∈ [.eq, .diff, .isNull, .isNotNull]) :
      ¬ (operation op operands).Has c := by
    cases c <;> simp [Has] <;> grind
  unfold testForNull
  split
  · split
    next compared =>
      rw [somewhere_operation (here _ _ (by simp)), somewhere_operation (here _ _ (by simp)),
        ← somewhere_comparedWithNull? compared]
      simp
    next => rfl
  · split
    next compared =>
      rw [somewhere_operation (here _ _ (by simp)), somewhere_operation (here _ _ (by simp)),
        ← somewhere_comparedWithNull? compared]
      simp
    next => rfl
  · rfl

theorem has_mapBelow (f : Expr → Expr) (e : Expr) : (e.mapBelow f).Has c ↔ e.Has c := by
  cases e with
  | operation op operands => cases c <;> rfl
  | _ => rfl

theorem somewhere_markNull (e : Expr) : (markNull isNull e).Somewhere (·.Has c) (·.Has c) ↔
    e.Somewhere (·.Has c) (·.Has c) := by
  cases e with
  | param p =>
    rw [markNull]
    split
    · simp [somewhere_iff (e := param _), Has, parts, queries]
    · rfl
  | _ => rfl

end Expr

theorem Query.isBounded_mapped (f : Expr → Expr) (q : Query) :
    (q.mapped f).isBounded = q.isBounded := by
  rw [mapped_eq_mapParts]
  cases q with
  | select s => simp [mapParts, isBounded, Select.isBounded]
  | compound b => simp [mapParts, isBounded, Compound.isBounded]

theorem Query.has_mapped (f : Expr → Expr) (q : Query) : (q.mapped f).Has c ↔ q.Has c := by
  have isCompound (q : Query) : (∃ b, q.mapped f = .compound b) ↔ ∃ b, q = .compound b := by
    rw [mapped_eq_mapParts]
    cases q <;> simp [mapParts]
  rw [mapped_eq_mapParts]
  cases q with
  | select s =>
    cases c with
    | distinctOn => simp [mapParts, Has]
    | fullJoin => simp [mapParts, Has, FromClause.map]
    | _ => rfl
  | compound b =>
    cases c with
    | groupedBranch =>
      have later : (∃ b', .compound b' ∈ b.branches.tail.map (mapped f)) ↔
          ∃ b', .compound b' ∈ b.branches.tail := by
        simp only [List.mem_map]
        constructor
        · rintro ⟨b', q, member, same⟩
          obtain ⟨b'', rfl⟩ := (isCompound q).1 ⟨b', same⟩
          exact ⟨b'', member⟩
        · rintro ⟨b', member⟩
          obtain ⟨b'', same⟩ := (isCompound _).2 ⟨b', rfl⟩
          exact ⟨b'', _, member, same⟩
      simp only [mapParts, Has, ← List.map_tail, later]
      simp [isBounded_mapped]
    | _ => rfl

/-- Tests for NULL bring in no construct and take none away. -/
theorem somewhere_mapped_testForNull :
    (∀ e : Expr, (e.mapped (Expr.testForNull isNull)).Somewhere (·.Has c) (·.Has c) ↔
        e.Somewhere (·.Has c) (·.Has c)) ∧
      ∀ q : Query, (q.mapped (Expr.testForNull isNull)).Somewhere (·.Has c) (·.Has c) ↔
        q.Somewhere (·.Has c) (·.Has c) :=
  somewhere_mapped Expr.somewhere_testForNull (Expr.has_mapBelow _) (Query.has_mapped _)

namespace Body

theorem contains_markNulls (isNull : ParamRef → Bool) (b : Body) :
    (b.markNulls isNull).Contains c ↔ b.Contains c := by
  cases b with
  | update u =>
    have has : (markNulls isNull (update u)).Has c ↔ (update u).Has c := by cases c <;> rfl
    rw [Contains, Contains, has]
    simp [Somewhere, markNulls, parts, queries, or_and_right, exists_or, Expr.somewhere_markNull]
  | verbatim parts => rfl
  | _ => rfl

theorem has_map (f : Expr → Expr) (b : Body) : (b.map f).Has c ↔ b.Has c := by
  have query (q : Query) : ¬ (ofQuery q).Has c := by cases q <;> exact id
  rw [map_eq_mapParts]
  cases b with
  | select s => exact iff_of_false (query (Query.mapped f (.select s))) id
  | compound s => exact iff_of_false (query (Query.mapped f (.compound s))) id
  | update u => cases c <;> rfl
  | _ => rfl

/-- A statement whose comparisons with NULL became tests contains what it contained. -/
theorem contains_testForNulls (b : Body) : (b.testForNulls isNull).Contains c ↔ b.Contains c := by
  rw [← contains_markNulls isNull b, testForNulls, Contains, Contains, has_map]
  simp only [Somewhere, parts_map, queries_map, List.mem_map, exists_exists_and_eq_and,
    somewhere_mapped_testForNull.1, somewhere_mapped_testForNull.2]

end Body

end Tests

/-! ## The constructs of a statement -/

namespace Body

variable {r : RenderContext} {b : Body}

/-- With parameters left in place, a statement fails for what the dialect does not have, if its
operators have as many operands as they take and it does not leave out the name of a savepoint. -/
theorem errors_iff_contains (symbolic : r.settings.style ≠ .inline)
    (parts : ∀ e ∈ b.parts, e.Everywhere Expr.FormedHere fun _ => True)
    (queries : ∀ q ∈ b.queries, q.Everywhere Expr.FormedHere fun _ => True) (named : b.Named) :
    (∃ err, b.Errors r err) ↔ ∃ c, r.dialect.Lacks c ∧ b.Contains c := by
  have expr (e : Expr) (formed : e.FormedHere) : (∃ err, e.FailsHere r err) ↔
      ∃ c : { c // r.dialect.Lacks c }, e.Has c := by
    simpa [and_comm] using Expr.fails_iff_has symbolic formed
  have query (q : Query) (_ : True) : (∃ err, q.FailsHere r err) ↔
      ∃ c : { c // r.dialect.Lacks c }, q.Has c := by
    simpa [and_comm] using Query.fails_iff_has
  have below := somewhere_congr (fun e he => (parts e he).mono expr query)
    fun q hq => (queries q hq).mono expr query
  rw [somewhere_exists, somewhere_exists] at below
  simp only [Errors, Contains, exists_or, fails_iff_has symbolic named, below]
  simp [and_or_left, exists_or]

/-- An error of a statement says what the dialect does not have. -/
theorem unsupported_of_errors (symbolic : r.settings.style ≠ .inline)
    (parts : ∀ e ∈ b.parts, e.Everywhere Expr.FormedHere fun _ => True)
    (queries : ∀ q ∈ b.queries, q.Everywhere Expr.FormedHere fun _ => True) (named : b.Named)
    {err : SqlError} (h : b.Errors r err) :
    ∃ what, err = .render (.unsupported what r.dialect) := by
  have formed : b.Somewhere (·.FailsHere r err) (·.FailsHere r err) ↔
      b.Somewhere (fun e => e.FailsHere r err ∧ e.FormedHere) (·.FailsHere r err) :=
    somewhere_congr
      (fun e he => (parts e he).mono (fun _ here => (and_iff_left here).symm) fun _ _ => Iff.rfl)
      fun q hq => (queries q hq).mono (fun _ here => (and_iff_left here).symm) fun _ _ => Iff.rfl
  have elim := somewhere_elim (P := fun e => e.FailsHere r err ∧ e.FormedHere)
    (Q := (·.FailsHere r err)) (fun e failed => e.unsupported_of_fails symbolic failed.2 failed.1)
    fun q failed => q.unsupported_of_fails failed
  rcases h with (failed | @⟨t, _, failed⟩ | ⟨-, -, inline, -⟩) | below
  · exact (r.gates_updateWords _).unsupported err failed
  · exact (r.gates_transaction (named t rfl)).unsupported _ failed
  · exact absurd inline symbolic
  · rcases formed.1 below with ⟨e, -, failed⟩ | ⟨q, -, failed⟩
    · exact elim.1 e failed
    · exact elim.2 q failed

theorem Named.testForNulls {isNull : ParamRef → Bool} (named : b.Named) :
    (b.testForNulls isNull).Named := by
  have query (q : Query) (t : Transaction) : ofQuery q ≠ .transaction t := by
    cases q <;> rintro ⟨⟩
  intro t same
  cases b with
  | select s =>
    rw [Body.testForNulls, map_eq_mapParts] at same
    exact absurd same (query (Query.mapped _ (.select s)) t)
  | compound c =>
    rw [Body.testForNulls, map_eq_mapParts] at same
    exact absurd same (query (Query.mapped _ (.compound c)) t)
  | transaction t' => exact named t same
  | _ => cases same

/-- The tests for NULL are of no account for whether a statement can be written. -/
theorem errors_testForNulls_iff (isNull : ParamRef → Bool) (symbolic : r.settings.style ≠ .inline)
    (formed : b.Formed) (named : b.Named) : (∃ err, (b.testForNulls isNull).Errors r err) ↔
      ∃ c, r.dialect.Lacks c ∧ b.Contains c := by
  have tested : (∃ err, (b.testForNulls isNull).Errors r err) ↔
      ∃ c, r.dialect.Lacks c ∧ (b.testForNulls isNull).Contains c :=
    errors_iff_contains symbolic (everywhere_formedHere formed).1 (everywhere_formedHere formed).2
      named.testForNulls
  simpa only [contains_testForNulls] using tested

end Body

/-! ## The names of savepoints -/

namespace Grammar

open Parse

theorem yields_transactionOption (t : Transaction) (begins : t.kind = .begin) :
    Yields (fun o => ∀ t' ∈ o, t'.kind = .begin) (transactionOption t) := by
  refine yields_after fun isolation => ?_
  split
  · exact yields_after fun _ => yields_after fun _ => yields_after fun _ =>
      yields_pure (by simpa using begins)
  · refine yields_after fun access => ?_
    split
    · exact yields_after fun _ => yields_after fun _ => yields_pure (by simpa using begins)
    · exact yields_none

/-- A command about a savepoint is read with the name of the savepoint. -/
theorem yields_named (r : Nested) : Yields Body.Named (body r) := by
  have command {p : Parse Transaction} (h : Yields Transaction.Named p) :
      Yields Body.Named (Body.transaction <$> p) := by
    refine h.map fun t named t' same => ?_
    cases same
    exact named
  have options {t : Transaction} (begins : t.kind = .begin) :
      Yields Transaction.Named (repeatStep transactionOption t) :=
    (yields_repeatStep yields_transactionOption begins).mono fun t begins named => by
      simp [begins] at named
  have commit : Yields Transaction.Named commitTail :=
    yields_after fun _ => yields_after fun _ =>
      yields_pure (by simp [Transaction.Named, Transaction.plain])
  have rollback : Yields Transaction.Named rollbackTail := by
    refine yields_after fun _ => yields_after fun toSavepoint => ?_
    split
    · exact yields_after fun _ => yields_after fun _ => yields_pure fun _ => rfl
    · exact yields_after fun _ => yields_pure (by simp [Transaction.Named, Transaction.plain])
  have query (q : Query) : (Body.ofQuery q).Named := by
    cases q <;> rintro t ⟨⟩
  refine yields_after fun k => ?_
  split
  · exact yields_mapped query
  · exact yields_mapped query
  · exact yields_mapped fun _ => by rintro t ⟨⟩
  · exact yields_mapped fun _ => by rintro t ⟨⟩
  · exact yields_mapped fun _ => by rintro t ⟨⟩
  · exact yields_mapped fun _ => by rintro t ⟨⟩
  · exact yields_after fun _ => command (yields_after fun _ => yields_after fun _ =>
      yields_after fun _ => options rfl)
  · exact yields_after fun _ => command (yields_after fun _ => options rfl)
  · exact yields_after fun _ => command commit
  · exact yields_after fun _ => command commit
  · exact yields_after fun _ => command rollback
  · exact yields_after fun _ => command (yields_after fun _ => yields_pure fun _ => rfl)
  · exact yields_after fun _ => command (yields_after fun _ => yields_after fun _ =>
      yields_pure fun _ => rfl)
  · exact yields_fail _

end Grammar

/-! ## Parsed statements -/

namespace Statement

variable {s : ParseSettings} {delimiter text : List Char} {st : Statement}
  {settings : RenderSettings} {values : Bindings} {d : Dialect}

/-- A statement that is read names its savepoint. -/
theorem Parsed.named (h : st.Parsed s delimiter text) : st.body.Named := by
  obtain ⟨p, read, -⟩ := h.exists_words
  rcases Piece.ofTokens_of_body (Piece.read_eq_ok_iff.1 read).1 with ⟨parts, verbatim⟩ | taken
  · rw [verbatim]
    rintro t ⟨⟩
  · exact Body.of_ofTokens (Grammar.yields_named _) taken

/-- Writing a statement fails just for an error of a place in it, behind the tests for NULL. -/
theorem Parsed.accounts_render (h : st.Parsed s delimiter text) (values : Bindings)
    (settings : RenderSettings) (d : Dialect) :
    Render.Accounts ((st.body.testForNulls (ParamRef.holdsNull st.params values)).Errors
      (st.context values settings d)) (st.render values settings d) := by
  have risks := RenderContext.risks_body (r := st.context values settings d)
    (b := st.body.testForNulls (ParamRef.holdsNull st.params values)) h.holds.2.testForNulls []
  rw [render_eq]
  generalize (((st.context values settings d).body _).run.run []).1 = answer at risks ⊢
  cases answer <;> exact risks

/-- With parameters left in place, a statement cannot be written for a dialect just if it contains,
at whatever depth, a construct that the dialect does not have, and the error says so. -/
theorem Parsed.render_symbolic (h : st.Parsed s delimiter text)
    (symbolic : settings.style ≠ .inline) (values : Bindings) (d : Dialect) :
    ((∃ e, st.render values settings d = .error e) ↔ ∃ c, d.Lacks c ∧ st.body.Contains c) ∧
      ∀ e, st.render values settings d = .error e → ∃ what, e = .render (.unsupported what d) := by
  have accounts := h.accounts_render values settings d
  have errors := Body.errors_testForNulls_iff (r := st.context values settings d)
    (ParamRef.holdsNull st.params values) symbolic h.formed h.named
  refine ⟨Iff.trans ?_ errors, fun e failed => ?_⟩
  · generalize st.render values settings d = answer at accounts ⊢
    cases answer with
    | ok sql => exact iff_of_false (by rintro ⟨e, ⟨⟩⟩) (not_exists.2 accounts)
    | error e => exact iff_of_true ⟨e, rfl⟩ ⟨e, accounts⟩
  · rw [failed] at accounts
    exact Body.unsupported_of_errors symbolic (Body.everywhere_formedHere h.formed).1
      (Body.everywhere_formedHere h.formed).2 h.named.testForNulls accounts

/-- `UPDATE t SET a = (SELECT b ILIKE ##p)`. -/
def ofIlike : Statement where
  sql := "UPDATE t SET a = (SELECT b ILIKE ##p)"
  body := .update
    { table := ⟨["t"]⟩
      onConflict := none
      assignments := [⟨"a", .subquery (.select (Select.ofColumns
        [⟨.operation .ilike [.name ⟨["b"]⟩, .param (.ofKey (.named "p"))], none⟩]))⟩]
      condition := none }
  params := ⟨[⟨.named "p", none, none, false⟩], []⟩

theorem parsed_ofIlike : ofIlike.Parsed {} [] ofIlike.sql.toList := by
  let ts : List Token :=
    [.onLine (.keyword .UPDATE) "" "UPDATE" 0, .onLine (.identifier "t") " " "t" 7,
      .onLine (.keyword .SET) " " "SET" 9, .onLine (.identifier "a") " " "a" 13,
      .onLine (.punct .eq) " " "=" 15, .onLine (.punct .leftParen) " " "(" 17,
      .onLine (.keyword .SELECT) "" "SELECT" 18, .onLine (.identifier "b") " " "b" 25,
      .onLine (.keyword .ILIKE) " " "ILIKE" 27,
      .onLine (.param ⟨.named "p", none, none, false, false⟩) " " "##p" 33,
      .onLine (.punct .rightParen) "" ")" 36]
  let p : Piece := .onLine ts 37
  have found : ((Script.ofText [] ofIlike.sql.toList).settle .standard).piece {} = .ok p := by
    decide +kernel
  have inner : p.innerTokens .standard = ts ++ [p.terminator] := by decide +kernel
  exact parsed_of_piece found nofun inner rfl rfl rfl rfl rfl rfl

/-- ILIKE two levels down keeps the statement from MySQL and not from PostgreSQL. -/
theorem Parsed.render_symbolic_ilike :
    let settings : RenderSettings := { style := .short }
    ofIlike.Parsed {} [] ofIlike.sql.toList ∧ settings.style ≠ .inline ∧
      ofIlike.body.Contains .ilike ∧ Dialect.mysql.Lacks .ilike ∧
      (∃ what, ofIlike.render .empty settings .mysql =
        .error (.render (.unsupported what .mysql))) ∧
      ofIlike.render .empty settings .postgresql = .ok "UPDATE t SET a = (SELECT b ILIKE ##p)" ∧
      ¬ ∃ c, Dialect.postgresql.Lacks c ∧ ofIlike.body.Contains c := by
  intro settings
  have symbolic : settings.style ≠ .inline := by decide
  have contains : ofIlike.body.Contains .ilike := by
    refine .inr (.inl ⟨_, List.mem_singleton_self _, .query (List.mem_singleton_self _) ?_⟩)
    exact .part (List.mem_singleton_self _) (.here (.inl rfl))
  have lacks : Dialect.mysql.Lacks .ilike := show Dialect.mysql ≠ .postgresql by decide
  have written : ofIlike.render .empty settings .postgresql =
      .ok "UPDATE t SET a = (SELECT b ILIKE ##p)" := by
    decide +kernel
  obtain ⟨e, failed⟩ :=
    (parsed_ofIlike.render_symbolic symbolic .empty .mysql).1.2 ⟨.ilike, lacks, contains⟩
  obtain ⟨what, rfl⟩ := (parsed_ofIlike.render_symbolic symbolic .empty .mysql).2 e failed
  refine ⟨parsed_ofIlike, symbolic, contains, lacks, ⟨what, failed⟩, written, fun missing => ?_⟩
  obtain ⟨e, failed⟩ := (parsed_ofIlike.render_symbolic symbolic .empty .postgresql).1.2 missing
  rw [written] at failed
  cases failed

end Statement

end BoundSql
