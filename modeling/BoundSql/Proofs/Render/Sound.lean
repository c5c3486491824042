import BoundSql.Proofs.Render.Gating
import BoundSql.Proofs.Render.Records
import BoundSql.Proofs.Tree.Checked

/-!
# What the check promises about writing

A tree with which the check finds no fault is never refused for the number of operands of an
operator: `Statement.write_ne_operandCount`. It may still be written in part only, since the check
lets two joins stand at one target, of which the first alone is written. The parameters of such a
tree are all recorded just if none of them stands in a hidden join: `Statement.recorded_iff`.
-/

namespace BoundSql

open Render

/-! ## The number of operands -/

/-- The errors of a tree whose operators have as many operands as they take: the dialect does not
have something, a savepoint has no name, or a parameter no value. -/
inductive SqlError.IsDue (d : Dialect) : SqlError → Prop
  | unsupported (what : String) : IsDue d (.render (.unsupported what d))
  | unnamed (kind : TransactionKind) : IsDue d (.render (.unnamed kind))
  | bind (name : String) (why : BindReason) : IsDue d (.bind name why)

section Due

variable {r : RenderContext} {err : SqlError}

theorem Gates.isDue {α : Type} {d : Dialect} {P : Prop} {c : Except SqlError α} (h : Gates d P c)
    (failed : c = .error err) : err.IsDue d := by
  obtain ⟨what, rfl⟩ := h.unsupported err failed
  exact .unsupported what

theorem RenderContext.Refuses.isDue {p : ParamRef} (h : r.Refuses p err) : err.IsDue r.dialect := by
  obtain ⟨why, rfl⟩ := resolve_eq_error h.2.2
  exact .bind _ why

theorem RenderContext.transaction_isDue {t : Transaction} (failed : r.transaction t = .error err) :
    err.IsDue r.dialect := by
  have savepoint {ws : List String} (failed : r.savepoint t ws = .error err) :
      err.IsDue r.dialect := by
    unfold RenderContext.savepoint at failed
    split at failed <;> cases failed
    exact .unnamed _
  unfold transaction at failed
  split at failed
  · exact (r.gates_beginPhrase t).isDue failed
  · cases failed
  · cases failed
  · exact savepoint failed
  · exact savepoint failed
  · exact savepoint failed

theorem Expr.isDue_of_failsHere {e : Expr} (formed : e.FormedHere) (h : e.FailsHere r err) :
    err.IsDue r.dialect := by
  rcases h with refused | failed | unwritten
  · exact refused.isDue
  · exact (r.gates_checkOperator _).isDue failed
  · rw [Operator.isWritten_of_accepts formed] at unwritten
    cases unwritten

theorem Query.isDue_of_failsHere {q : Query} (h : q.FailsHere r err) : err.IsDue r.dialect := by
  obtain ⟨what, rfl⟩ := q.unsupported_of_fails h
  exact .unsupported what

theorem Body.isDue_of_failsHere {b : Body} (h : b.FailsHere r err) : err.IsDue r.dialect := by
  rcases h with failed | failed | ⟨-, refused⟩
  · exact (r.gates_updateWords _).isDue failed
  · exact RenderContext.transaction_isDue failed
  · exact refused.isDue

/-- A tree whose operators have as many operands as they take has no other errors. -/
theorem Body.failsOnly_isDue {b : Body}
    (parts : ∀ e ∈ b.parts, e.Everywhere Expr.FormedHere fun _ => True)
    (queries : ∀ q ∈ b.queries, q.Everywhere Expr.FormedHere fun _ => True) :
    b.FailsOnly r (·.IsDue r.dialect) where
  here _ := isDue_of_failsHere
  parts e he := (parts e he).mono (fun _ formed _ => Expr.isDue_of_failsHere formed)
    fun _ _ _ => Query.isDue_of_failsHere
  queries q hq := (queries q hq).mono (fun _ formed _ => Expr.isDue_of_failsHere formed)
    fun _ _ _ => Query.isDue_of_failsHere

end Due

namespace Statement

variable {s : Statement} {values : Bindings} {settings : RenderSettings} {d : Dialect}

/-- Writing a statement fails as writing its tree does, and records what that records. -/
theorem outcome_of_write {E : SqlError → Prop} {ps : List ParamRef}
    (h : Records E ps ((s.context values settings d).body s.body)) :
    (∀ err, (s.write values settings d).1 = .error err → E err) ∧
      ∀ text used, s.write values settings d = (.ok text, used) →
        used.Perm (ps.map (·.key.display)) := by
  have run : s.write values settings d =
      ((((s.context values settings d).body s.body).run.run []).1.map fun p =>
          String.ofList (p.write settings.pretty),
        (((s.context values settings d).body s.body).run.run []).2) := rfl
  cases outcome : ((s.context values settings d).body s.body).run.run [] with
  | mk answer recorded =>
    rw [run, outcome]
    cases answer with
    | error e =>
      refine ⟨?_, by rintro text used ⟨⟩⟩
      rintro err ⟨⟩
      exact h.fails [] recorded e outcome
    | ok phrase =>
      refine ⟨by rintro err ⟨⟩, ?_⟩
      rintro text used ⟨⟩
      exact h.gives [] recorded phrase outcome

/-- A statement that passes the check is never refused for the number of operands of an operator,
whether comparisons with NULL become tests or not. -/
theorem write_ne_operandCount (sound : s.body.check = .ok ()) (values : Bindings)
    (settings : RenderSettings) (d : Dialect) (op : Operator) (n : Nat) :
    (s.write values settings d).1 ≠ .error (.render (.operandCount op n)) ∧
      s.render values settings d ≠ .error (.render (.operandCount op n)) := by
  have formed := Body.formed_of_check sound
  have here {e : Expr} (h : e.Formed) : e.Everywhere Expr.FormedHere fun _ => True :=
    h.mono (fun _ => id) fun _ _ => trivial
  have below {q : Query} (h : q.Formed) : q.Everywhere Expr.FormedHere fun _ => True :=
    h.mono (fun _ => id) fun _ _ => trivial
  constructor
  · intro failed
    have due := Body.failsOnly_isDue (r := s.context values settings d)
      (fun e he => here (formed.parts e he)) fun q hq => below (formed.queries q hq)
    rcases (outcome_of_write (RenderContext.records_body due)).1 _ failed
  · intro failed
    have tested : (∀ e ∈ (s.testForNulls values).body.parts,
        e.Everywhere Expr.FormedHere fun _ => True) ∧
        ∀ q ∈ (s.testForNulls values).body.queries,
          q.Everywhere Expr.FormedHere fun _ => True := Body.everywhere_formedHere formed
    have due := Body.failsOnly_isDue (r := s.context values settings d) tested.1 tested.2
    rcases (outcome_of_write (s := s.testForNulls values) (RenderContext.records_body due)).1 _
      failed

/-- A comparison in the condition of a join, two queries down in the value of a column. -/
def comparing (operands : List Expr) : Statement where
  sql := ""
  body := .update
    { table := ⟨["t"]⟩
      onConflict := none
      assignments := [⟨"a", .call "F" false [.subquery (.select
        { Select.ofColumns [⟨.wildcard none, none⟩] with
          source := some ⟨[⟨.table ⟨["t"]⟩, none⟩, ⟨.table ⟨["u"]⟩, none⟩],
            [⟨.inner, 1, .predicate (.operation .eq operands)⟩]⟩ })]⟩]
      condition := none }
  params := ⟨[], []⟩

/-- With two operands the comparison passes the check and is written; with one it fails both. -/
theorem write_ne_operandCount_comparing :
    let settings : RenderSettings := { style := .short }
    let two := comparing [.name ⟨["a"]⟩, .name ⟨["b"]⟩]
    let one := comparing [.name ⟨["a"]⟩]
    two.body.check = .ok () ∧
      (∀ op n, two.render .empty settings .standard ≠ .error (.render (.operandCount op n))) ∧
      one.body.check = .error (.operandCount .eq 1) ∧
      one.render .empty settings .standard = .error (.render (.operandCount .eq 1)) := by
  intro settings two one
  have sound : two.body.check = .ok () := by decide
  refine ⟨sound, fun op n => ?_, by decide, by decide⟩
  exact (write_ne_operandCount sound .empty settings .standard op n).2

/-! ## The parameters that are recorded -/

/-- What a statement that passes the check records when it is written are names of its parameters,
each as often as it stands there or less. All of them are recorded just if no join that stands
behind another at the same target holds a parameter. -/
theorem recorded_iff {text : String} {used : List String}
    (taken : ∀ parts, s.body ≠ .verbatim parts) (sound : s.body.check = .ok ())
    (written : s.write values settings d = (.ok text, used)) :
    used.Subperm ((s.body.exprs.filterMap Expr.param?).map (·.key.display)) ∧
      (used.Perm ((s.body.exprs.filterMap Expr.param?).map (·.key.display)) ↔
        s.body.EveryQuery Query.HidesNothing) := by
  have formed := Body.formed_of_check sound
  have shown : used.Perm (s.body.shownParams.map (·.key.display)) :=
    (outcome_of_write (RenderContext.records_body (Body.failsOnly_true _ _))).2 text used written
  have params : s.body.exprs.filterMap Expr.param? = s.body.params := by
    cases tree : s.body with
    | verbatim parts => exact absurd tree (taken parts)
    | _ => exact (List.append_nil _).symm
  have split : ((s.body.params).map (·.key.display)).Perm
      (used ++ s.body.hiddenParams.map (·.key.display)) := by
    refine ((Body.params_perm_shown formed).map _).trans ?_
    rw [List.map_append]
    exact shown.symm.append_right _
  rw [params, ← Body.hiddenParams_eq_nil_iff formed]
  constructor
  · exact split.subperm_left.2 (List.sublist_append_left used _).subperm
  · constructor
    · intro all
      have same := all.length_eq.trans split.length_eq
      rw [List.length_append, List.length_map] at same
      exact List.length_eq_zero_iff.1 (by omega)
    · intro none
      rw [none, List.map_nil, List.append_nil] at split
      exact split.symm

/-- `SELECT * FROM a`, with `b` and `c` joined at the given targets. -/
def joinedAt (first second : Nat) : Statement where
  sql := ""
  body := .select { Select.ofColumns [⟨.wildcard none, none⟩] with
    source := some ⟨["a", "b", "c"].map fun name => ⟨.table ⟨[name]⟩, none⟩,
      [⟨.inner, first, .predicate (.param (.ofKey (.named "p")))⟩,
        ⟨.inner, second, .predicate (.param (.ofKey (.named "q")))⟩]⟩ }
  params := ⟨[], []⟩

/-- Two joins at different targets record their parameters in the order of the targets. Of two joins
at one target the second is not written. -/
theorem recorded_iff_joinedAt :
    let settings : RenderSettings := { style := .colon }
    (∀ first second parts, (joinedAt first second).body ≠ .verbatim parts) ∧
      (joinedAt 2 1).body.check = .ok () ∧ (joinedAt 1 1).body.check = .ok () ∧
      (joinedAt 2 1).write .empty settings .standard =
        (.ok "SELECT * FROM a INNER JOIN b ON :q INNER JOIN c ON :p", ["q", "p"]) ∧
      (joinedAt 2 1).body.EveryQuery Query.HidesNothing ∧
      (joinedAt 1 1).write .empty settings .standard =
        (.ok "SELECT * FROM a INNER JOIN b ON :p, c", ["p"]) ∧
      ¬ (joinedAt 1 1).body.EveryQuery Query.HidesNothing := by
  intro settings
  have taken (first second : Nat) (parts : List Fragment) :
      (joinedAt first second).body ≠ .verbatim parts := by rintro ⟨⟩
  have apart : (joinedAt 2 1).body.check = .ok () := by decide
  have together : (joinedAt 1 1).body.check = .ok () := by decide
  have both : (joinedAt 2 1).write .empty settings .standard =
      (.ok "SELECT * FROM a INNER JOIN b ON :q INNER JOIN c ON :p", ["q", "p"]) := by
    decide +kernel
  have one : (joinedAt 1 1).write .empty settings .standard =
      (.ok "SELECT * FROM a INNER JOIN b ON :p, c", ["p"]) := by decide +kernel
  refine ⟨taken, apart, together, both, ?_, one, ?_⟩
  · exact (recorded_iff (taken 2 1) apart both).2.1 (by decide)
  · intro none
    exact absurd ((recorded_iff (taken 1 1) together one).2.2 none) (by decide)

end Statement

end BoundSql
