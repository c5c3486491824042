import BoundSql.Proofs.Render.Failure
import BoundSql.Proofs.Tree.Params

/-!
# The parameters that are written

Values are written in place of all parameters of a tree and of nothing else: `Visits r ps c` says
that `c` succeeds only if each of the parameters `ps` has a value to write, and fails on account
of a value only if one of them has none. It follows from what writing fails for, since of all places
in a tree only parameters fail on account of a value.
-/

namespace BoundSql

open Render

/-- There is something to write in place of the parameter. -/
def RenderContext.Settles (r : RenderContext) (p : ParamRef) : Prop :=
  p.nullBound ∨ ∃ v, r.resolve p = .ok v

/-- The parameter has no value to write, for which the name is reported. -/
def RenderContext.Rejects (r : RenderContext) (p : ParamRef) (name : String) : Prop :=
  p.nullBound = false ∧ ∃ why, r.resolve p = .error (.bind name why)

namespace Render

variable {α : Type} {r : RenderContext}

/-- What the outcome of a computation says about these parameters. -/
def Reports (r : RenderContext) (ps : List ParamRef) : Except SqlError α → Prop
  | .ok _ => ∀ p ∈ ps, r.Settles p
  | .error (.bind name _) => ∃ p ∈ ps, r.Rejects p name
  | .error _ => True

/-- The computation writes just these parameters, up to its first failure. -/
def Visits (r : RenderContext) (ps : List ParamRef) (c : Render α) : Prop :=
  ∀ used, Reports r ps (c.run.run used).1

end Render

/-! ## Errors on account of a value -/

/-- A parameter with some property stands in a tree just if it is found there. -/
theorem exists_mem_params {R : ParamRef → Prop} :
    (∀ e : Expr, (∃ p ∈ e.params, R p) ↔
        e.Somewhere (fun x => ∃ p ∈ x.param?, R p) fun _ => False) ∧
      ∀ q : Query, (∃ p ∈ q.params, R p) ↔
        q.Somewhere (fun x => ∃ p ∈ x.param?, R p) fun _ => False := by
  have below {α : Type} {xs : List α} {f : α → List ParamRef} {P : α → Prop}
      (h : ∀ x ∈ xs, (∃ p ∈ f x, R p) ↔ P x) :
      (∃ p ∈ xs.flatMap f, R p) ↔ ∃ x ∈ xs, P x := by
    simp only [List.mem_flatMap]
    grind
  refine tree_induction (fun e hes hqs => ?_) fun q hes hqs => ?_
  · simp only [Expr.somewhere_iff (e := e), e.params_eq, List.mem_append, Option.mem_toList,
      Option.mem_def, or_and_right, exists_or, below hes, below hqs]
  · simp only [Query.somewhere_iff (q := q), q.params_perm.mem_iff, List.mem_append, or_and_right,
      exists_or, below hes, below hqs, false_or]

section Bind

variable {r : RenderContext} {name : String} {why : BindReason}

/-- What a dialect does not have is no matter of a value. -/
theorem Gates.ne_bind {α : Type} {d : Dialect} {P : Prop} {c : Except SqlError α}
    (h : Gates d P c) : c ≠ .error (.bind name why) := by
  intro failed
  obtain ⟨what, other⟩ := h.unsupported _ failed
  cases other

theorem RenderContext.transaction_ne_bind (t : Transaction) :
    r.transaction t ≠ .error (.bind name why) := by
  have savepoint (ws : List String) : r.savepoint t ws ≠ .error (.bind name why) := by
    unfold RenderContext.savepoint
    split <;> rintro ⟨⟩
  unfold transaction
  split
  · exact (r.gates_beginPhrase t).ne_bind
  · rintro ⟨⟩
  · rintro ⟨⟩
  · exact savepoint _
  · exact savepoint _
  · exact savepoint _

/-- Of expressions only a parameter fails on account of a value. -/
theorem Expr.failsHere_bind {e : Expr} : e.FailsHere r (.bind name why) ↔
    ∃ p ∈ e.param?, r.Refuses p (.bind name why) := by
  refine ⟨?_, ?_⟩
  · rintro (refused | failed)
    · exact ⟨_, rfl, refused⟩
    · exact absurd failed (r.gates_checkOperator _).ne_bind
  · rintro ⟨p, same, refused⟩
    cases e with
    | param q =>
      cases same
      exact .param refused
    | _ => cases same

theorem Query.not_failsHere_bind {q : Query} : ¬ q.FailsHere r (.bind name why) := by
  intro failed
  obtain ⟨what, other⟩ := q.unsupported_of_fails failed
  cases other

theorem Body.failsHere_bind {b : Body} : b.FailsHere r (.bind name why) ↔
    ∃ p ∈ b.fragments.filterMap Fragment.ref?, r.Refuses p (.bind name why) := by
  have inside {parts : List Fragment} {p : ParamRef} :
      p ∈ parts.filterMap Fragment.ref? ↔ .param p ∈ parts := by
    rw [List.mem_filterMap]
    refine ⟨?_, fun member => ⟨_, member, rfl⟩⟩
    rintro ⟨part, member, same⟩
    cases part with
    | text t => cases same
    | param q =>
      cases same
      exact member
  refine ⟨?_, ?_⟩
  · rintro (failed | failed | ⟨member, refused⟩)
    · exact absurd failed (r.gates_updateWords _).ne_bind
    · exact absurd failed (r.transaction_ne_bind _)
    · exact ⟨_, inside.2 member, refused⟩
  · rintro ⟨p, member, refused⟩
    cases b with
    | verbatim parts => exact .fragment (inside.1 member) refused
    | _ => cases member

/-- The errors of a statement on account of a value are those of its parameters. -/
theorem Body.errors_bind {b : Body} : b.Errors r (.bind name why) ↔
    ∃ p ∈ b.params, r.Refuses p (.bind name why) := by
  have same : b.Somewhere (·.FailsHere r (.bind name why)) (·.FailsHere r (.bind name why)) ↔
      b.Somewhere (fun x => ∃ p ∈ x.param?, r.Refuses p (.bind name why)) fun _ => False := by
    have everywhere := everywhere_of_forall (P := fun e => e.FailsHere r (.bind name why) ↔
      ∃ p ∈ e.param?, r.Refuses p (.bind name why))
      (Q := fun q => q.FailsHere r (.bind name why) ↔ False)
      (fun _ => Expr.failsHere_bind) fun _ => iff_false_intro Query.not_failsHere_bind
    exact Body.somewhere_congr (fun e _ => everywhere.1 e) fun q _ => everywhere.2 q
  rw [Body.Errors, same, failsHere_bind]
  simp only [Body.Somewhere, ← exists_mem_params.1, ← exists_mem_params.2, b.params_perm.mem_iff,
    List.mem_append, List.mem_flatMap, or_and_right, exists_or]
  grind

/-- What is reported where there is no value to write is the name of the parameter. -/
theorem RenderContext.resolve_eq_error {p : ParamRef} {err : SqlError}
    (h : r.resolve p = .error err) : ∃ why, err = .bind p.key.display why := by
  unfold resolve at h
  split at h
  · split at h <;> cases h
    exact ⟨_, rfl⟩
  · split at h
    · cases h
    · split at h <;> cases h
      exact ⟨_, rfl⟩

/-- Writing a statement reaches every parameter in it. -/
theorem RenderContext.visits_body (inline : r.settings.style = .inline) {b : Body}
    (h : b.Ordered) : Visits r b.params (r.body b) := by
  intro used
  have accounts := risks_body (r := r) h used
  generalize ((r.body b).run.run used).1 = answer at accounts ⊢
  cases answer with
  | ok phrase =>
    intro p member
    cases bound : p.nullBound with
    | true => exact .inl bound
    | false =>
      cases value : r.resolve p with
      | ok v => exact .inr ⟨v, value⟩
      | error err =>
        obtain ⟨why, rfl⟩ := resolve_eq_error value
        exact absurd (Body.errors_bind.2 ⟨p, member, bound, inline, value⟩) (accounts _)
  | error err =>
    cases err with
    | bind name why =>
      obtain ⟨p, member, bound, -, value⟩ := Body.errors_bind.1 accounts
      exact ⟨p, member, bound, why, value⟩
    | _ => trivial

end Bind

end BoundSql
