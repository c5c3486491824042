import BoundSql.Proofs.Render.Kept
import BoundSql.Proofs.Render.Visits
import BoundSql.Proofs.Script.Placeholders

/-!
# Values in place of parameters

Where values are written in place of the parameters of a statement, writing succeeds only if each
parameter has a value that can be written, and fails on account of a value only where one has not:
`Statement.Parsed.render_inline`.
-/

namespace BoundSql

open Render

/-- The values serve a parameter where it stands as `ps` have it: NULL is bound to it only if that
may be, another value only if its type is the declared one and it can be written, and without a
value it may be NULL or has a default everywhere. -/
structure ParamSpec.Served (spec : ParamSpec) (values : Bindings) (ps : List ParamRef) : Prop where
  null : values.get? spec.name = some .null → spec.nullok
  accepted : ∀ v, values.get? spec.name = some v → v ≠ .null →
    spec.valueType.accepts v ∧ v.notFinite? = none
  unbound : values.get? spec.name = none →
    spec.nullok ∨ ∀ p ∈ ps, p.key = spec.key → p.default.isSome

theorem Value.isNull_iff {v : Value} : v.isNull = true ↔ v = .null := by
  cases v <;> simp [isNull]

namespace RenderContext

variable {r : RenderContext} {p : ParamRef} {spec : ParamSpec}

/-- A value is objected to just if the declaration does not admit it. -/
theorem objection?_eq_none_iff (h : r.params.get? p.key = some spec) {v : Value} :
    r.objection? p.key v = none ↔
      (v = .null → spec.nullok) ∧ (v ≠ .null → spec.valueType.accepts v ∧ v.notFinite? = none) := by
  have nullok : r.nullok p.key = spec.nullok := by rw [RenderContext.nullok, h]; rfl
  rw [objection?, nullok, h]
  by_cases null : v = .null
  · subst null
    cases spec.nullok <;> simp [Value.isNull, ValueType.accepts, Value.notFinite?]
  · have given : v.isNull = false := by simpa using mt Value.isNull_iff.1 null
    cases accepted : spec.valueType.accepts v <;> simp [given, null, accepted]

/-- A value is found for a parameter just if the values serve it where it stands. -/
theorem resolve_eq_ok_iff (h : r.params.get? p.key = some spec) (key : spec.key = p.key) :
    (∃ v, r.resolve p = .ok v) ↔ spec.Served r.values [p] := by
  have nullok : r.nullok p.key = spec.nullok := by rw [RenderContext.nullok, h]; rfl
  have name : spec.name = p.key.display := by rw [ParamSpec.name, key]
  rw [resolve]
  cases bound : r.values.get? p.key.display with
  | some v =>
    have served : spec.Served r.values [p] ↔ r.objection? p.key v = none := by
      rw [objection?_eq_none_iff h]
      refine ⟨fun ok => ⟨fun null => ok.null ?_, fun given => ok.accepted v ?_ given⟩,
        fun ok => ⟨fun null => ok.1 ?_, fun w here given => ?_, fun none => ?_⟩⟩
      all_goals simp_all
    rw [served]
    cases objected : r.objection? p.key v <;> simp [objected]
  | none =>
    have served : spec.Served r.values [p] ↔ spec.nullok ∨ p.default.isSome := by
      refine ⟨fun ok =>
          (ok.unbound ?_).imp id fun all => all p (List.mem_singleton_self p) key.symm,
        fun ok => ⟨fun null => ?_, fun w here given => ?_,
          fun _ => ok.imp id fun default q hq _ => ?_⟩⟩
      all_goals simp_all
    rw [served, nullok]
    cases p.default <;> cases spec.nullok <;> simp

/-- What is reported is the name of the parameter. -/
theorem name_of_resolve {name : String} {why : BindReason}
    (h : r.resolve p = .error (.bind name why)) :
    p.key.display = name := by
  obtain ⟨why, same⟩ := resolve_eq_error h
  cases same
  rfl

end RenderContext

namespace Statement

variable {s : ParseSettings} {delimiter text : List Char} {st : Statement}
  {settings : RenderSettings} {values : Bindings} {d : Dialect}

/-- What values are written with in place of the parameters of a statement. -/
def context (st : Statement) (values : Bindings) (settings : RenderSettings) (d : Dialect) :
    RenderContext :=
  { dialect := d, settings, params := st.params, values }

/-- What is written is the text of the phrase of the statement behind the tests for NULL. -/
theorem render_eq (st : Statement) (values : Bindings) (settings : RenderSettings) (d : Dialect) :
    st.render values settings d = (((st.context values settings d).body
      (st.body.testForNulls (ParamRef.holdsNull st.params values))).run.run []).1.map
        fun phrase => String.ofList (phrase.write settings.pretty) :=
  rfl

/-- Writing a statement with values reports on the parameters left behind the tests for NULL. -/
theorem Parsed.reports (h : st.Parsed s delimiter text) (inline : settings.style = .inline)
    (values : Bindings) (d : Dialect) :
    Reports (st.context values settings d)
      (st.body.testForNulls (ParamRef.holdsNull st.params values)).params
      (st.render values settings d) := by
  have visits := RenderContext.visits_body (r := st.context values settings d)
    (b := st.body.testForNulls (ParamRef.holdsNull st.params values)) inline
    h.holds.2.testForNulls []
  rw [render_eq]
  generalize (((st.context values settings d).body _).run.run []).1 = answer at visits ⊢
  cases answer with
  | ok phrase => exact visits
  | error e => cases e <;> exact visits

/-- Each parameter has the entry of its key. -/
theorem Parsed.get?_params (h : st.Parsed s delimiter text) {p : ParamRef}
    (member : p ∈ st.body.params) : ∃ spec ∈ st.params.specs, spec.key = p.key ∧
      st.params.get? p.key = some spec := by
  have declared : p.key ∈ (st.declarations s.dialect).map ParamSpec.key :=
    h.holds.1.exists_key_iff.1 ⟨p, member, rfl⟩
  rw [h.params_eq]
  have found := ParamTable.get?_ofSpecs (st.declarations s.dialect) p.key
  rw [if_pos declared] at found
  exact ⟨_, List.mem_of_find?_eq_some found, rfl, found⟩

/-- Each entry has a parameter, and is the entry of its key. -/
theorem Parsed.get?_specs (h : st.Parsed s delimiter text) {spec : ParamSpec}
    (member : spec ∈ st.params.specs) : st.params.get? spec.key = some spec ∧
      ∃ p ∈ st.body.params, p.key = spec.key := by
  rw [h.params_eq] at member ⊢
  have declared : spec.key ∈ (st.declarations s.dialect).map ParamSpec.key :=
    ParamTable.exists_spec_iff.1 ⟨spec, member, rfl⟩
  refine ⟨?_, h.holds.1.exists_key_iff.2 declared⟩
  rw [ParamTable.specs_ofSpecs] at member
  obtain ⟨key, -, rfl⟩ := List.mem_map.1 member
  rw [ParamTable.get?_ofSpecs, if_pos declared]
  rfl

/-- Where values are written in place of parameters, a statement is written only if the values serve
every parameter of its table; and if a parameter is reported, the values do not serve it where it
stands somewhere in the statement. -/
theorem Parsed.render_inline (h : st.Parsed s delimiter text) (inline : settings.style = .inline)
    (values : Bindings) (d : Dialect) :
    (∀ sql, st.render values settings d = .ok sql →
      ∀ spec ∈ st.params.specs, spec.Served values st.body.params) ∧
    ∀ name why, st.render values settings d = .error (.bind name why) →
      ∃ p ∈ st.body.params, p.key.display = name ∧
        ∃ spec ∈ st.params.specs, spec.key = p.key ∧ ¬ spec.Served values [p] := by
  have reports := h.reports inline values d
  have left : Leaves (ParamRef.holdsNull st.params values) st.body.params
      (st.body.testForNulls (ParamRef.holdsNull st.params values)).params :=
    st.body.leaves_params
  constructor
  · intro sql written spec member
    rw [written] at reports
    obtain ⟨found, p, occurs, key⟩ := h.get?_specs member
    have holdsNull (q : ParamRef) (inside : q ∈ st.body.params) (same : q.key = spec.key) :
        q.holdsNull st.params values = (spec.nullok && values.isNull spec.name) := by
      rw [ParamRef.holdsNull, h.holds.1.nullBound inside, same, found]
      rfl
    cases null : spec.nullok && values.isNull spec.name with
    | true =>
      obtain ⟨nullok, bound⟩ := Bool.and_eq_true_iff.1 null
      refine ⟨fun _ => nullok, fun v given other => ?_, fun _ => .inl nullok⟩
      rw [Bindings.isNull, given] at bound
      exact absurd (Value.isNull_iff.1 bound) other
    | false =>
      -- No occurrence of the parameter is NULL, so each of them is written.
      have served (q : ParamRef) (inside : q ∈ st.body.params) (same : q.key = spec.key) :
          spec.Served values [q] := by
        have stays := left.after q inside ((holdsNull q inside same).trans null)
        have settled := (reports q stays).resolve_left (by rw [h.holds.1.nullBound inside]; nofun)
        exact (RenderContext.resolve_eq_ok_iff (r := st.context values settings d)
          (same ▸ found) same.symm).1 settled
      refine ⟨(served p occurs key).null, (served p occurs key).accepted, fun unbound => ?_⟩
      by_cases nullok : spec.nullok
      · exact .inl nullok
      · refine .inr fun q inside same => ?_
        exact ((served q inside same).unbound unbound).resolve_left nullok q
          (List.mem_singleton_self q) same
  · intro name why failed
    rw [failed] at reports
    obtain ⟨p, stays, unmarked, why', refused⟩ := reports
    have occurs := left.before p stays unmarked
    obtain ⟨spec, member, key, found⟩ := h.get?_params occurs
    refine ⟨p, occurs, RenderContext.name_of_resolve refused, spec, member, key, fun served => ?_⟩
    obtain ⟨v, value⟩ := (RenderContext.resolve_eq_ok_iff (r := st.context values settings d) found
      key).2 served
    rw [refused] at value
    cases value

/-- The statement `##n` is written as the value of `n`, and without one reports `n`. -/
theorem Parsed.render_inline_placeholder :
    (ofPlaceholder "##n" "n").Parsed {} [] ['#', '#', 'n'] ∧
      ({} : RenderSettings).style = .inline ∧
      (ofPlaceholder "##n" "n").render ⟨[("n", .bool true)]⟩ {} .standard = .ok "TRUE" ∧
      (∀ spec ∈ (ofPlaceholder "##n" "n").params.specs, spec.Served ⟨[("n", .bool true)]⟩
        (ofPlaceholder "##n" "n").body.params) ∧
      (ofPlaceholder "##n" "n").render .empty {} .standard = .error (.bind "n" .unbound) ∧
      ∃ p ∈ (ofPlaceholder "##n" "n").body.params, p.key.display = "n" ∧
        ∃ spec ∈ (ofPlaceholder "##n" "n").params.specs, spec.key = p.key ∧
          ¬ spec.Served .empty [p] := by
  have written : (ofPlaceholder "##n" "n").render ⟨[("n", .bool true)]⟩ {} .standard =
      .ok "TRUE" := by decide +kernel
  have failed : (ofPlaceholder "##n" "n").render .empty {} .standard =
      .error (.bind "n" .unbound) := by decide +kernel
  exact ⟨parsed_placeholder, rfl, written,
    (Parsed.render_inline parsed_placeholder rfl _ _).1 _ written, failed,
    (Parsed.render_inline parsed_placeholder rfl _ _).2 _ _ failed⟩

end Statement

end BoundSql
