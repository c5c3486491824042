import BoundSql.Proofs.Binding.Expression
import BoundSql.Proofs.Render.Uncompared

/-!
# Parameters without a value

A parameter that may be NULL is written as NULL if nothing is bound to it. Only where it is compared
does it matter whether NULL is bound to it: a comparison becomes a test for NULL only if it is
(`Statement.Parsed.render_set_null`).
-/

namespace BoundSql

open Phrase Render

/-! ## Values -/

namespace Bindings

theorem find?_putEntry_self (name : String) (value : Value) (entries : List (String × Value)) :
    (putEntry name value entries).find? (·.1 == name) = some (name, value) := by
  fun_induction putEntry name value entries with
  | case1 => simp
  | case2 => simp
  | case3 => simp
  | case4 n v rest other _ ih => simp [ih, Ne.symm other]

theorem find?_putEntry_of_ne {name other : String} (h : other ≠ name) (value : Value)
    (entries : List (String × Value)) :
    (putEntry name value entries).find? (·.1 == other) = entries.find? (·.1 == other) := by
  fun_induction putEntry name value entries with
  | case1 => simp [Ne.symm h]
  | case2 => simp [Ne.symm h]
  | case3 => simp [Ne.symm h]
  | case4 n v rest _ _ ih => rw [List.find?_cons, List.find?_cons, ih]

/-- The value that is bound last is found. -/
theorem get?_set_self (b : Bindings) (name : String) (value : Value) :
    (b.set name value).get? name = some value := by
  rw [get?, set, find?_putEntry_self, Option.map_some]

/-- Binding a value to a name does not change what is bound to others. -/
theorem get?_set_of_ne (b : Bindings) {name other : String} (h : other ≠ name) (value : Value) :
    (b.set name value).get? other = b.get? other := by
  rw [get?, set, find?_putEntry_of_ne h, get?]

end Bindings

/-! ## Writing with other values -/

/-- Where the texts for all names are the same, so are the phrases. -/
theorem Phrase.Alike.eq {es : List Entry} {p₁ p₂ : Phrase}
    (h : Alike (fun _ s₁ s₂ => s₁ = s₂) es p₁ p₂) : p₁ = p₂ := by
  induction h with
  | nil => rfl
  | cons m _ ih => rw [ih]
  | hole here _ ih => rw [here, ih]

namespace TwoWays

/-- The same texts with other values, in another layout. -/
def sameTexts (r : RenderContext) (values : Bindings) (pretty : Bool) : TwoWays where
  context := r
  firstStyle := r.settings.style
  secondStyle := r.settings.style
  firstValues := r.values
  secondValues := values
  secondPretty := pretty
  Hole _ s₁ s₂ := s₁ = s₂
  opens := by
    rintro name s _ p₁ p₂ rfl opens
    unfold Phrase.opensWithMinus
    cases s.toList with
    | nil => exact opens
    | cons => rfl
  InOrder := False

end TwoWays

namespace RenderContext

/-- What is written of a statement does not depend on the layout, and on the values only through what
is written of its parameters. -/
theorem body_congr {r : RenderContext} {values : Bindings} {pretty : Bool} {b : Body}
    (same : ∀ p ∈ b.params, ∀ used,
      RenderContext.paramText { r with values } p used = r.paramText p used) :
    RenderContext.body { r with values, settings := { r.settings with pretty } } b = r.body b := by
  have params (p : ParamRef) (hp : p ∈ b.params) :
      (TwoWays.sameTexts r values pretty).ParamAlike p := by
    refine parallel_param fun used => ?_
    have second := same p hp used
    cases first : r.paramText p used with
    | error e => exact .inl ⟨e, first, second.trans first⟩
    | ok text =>
      exact .inr ⟨text, text, first, second.trans first, _, .hole rfl .nil, .refl _, fun _ => rfl⟩
  have parallel := TwoWays.parallel_body params (Body.everyQuery_of_forall (fun _ => False.elim) b)
  funext used
  rcases parallel used with ⟨e, more, first, second⟩ | ⟨a, c, new, first, second, _, alike, -⟩
  · exact second.trans first.symm
  · rw [alike.eq] at first
    exact second.trans first.symm

/-- A parameter with the same value is written the same. -/
theorem paramText_congr_values {r : RenderContext} {values : Bindings} {p : ParamRef}
    (same : p.nullBound = false → RenderContext.resolve { r with values } p = r.resolve p)
    (used : List String) :
    RenderContext.paramText { r with values } p used = r.paramText p used := by
  unfold paramText
  split
  · rfl
  · rename_i unmarked
    rw [same (by simpa using unmarked)]
    rfl

/-- A parameter that is NULL is written the same with the mark. -/
theorem param_marked {r : RenderContext} {p : ParamRef} (inline : r.settings.style = .inline)
    (null : r.resolve p = .ok .null) : r.param { p with nullBound := true } = r.param p := by
  have text (used : List String) :
      r.paramText { p with nullBound := true } used = r.paramText p used := by
    change .ok "NULL" = r.paramText p used
    rw [paramText, inline, null]
    split <;> rfl
  unfold param
  simp only [text]

/-- NULL that is bound to a parameter that may be NULL is its value. -/
theorem resolve_of_null {r : RenderContext} {p : ParamRef} (nullok : r.nullok p.key)
    (bound : r.values.get? p.key.display = some .null) : r.resolve p = .ok .null := by
  rw [RenderContext.nullok, Option.getD_eq_iff] at nullok
  obtain ⟨spec, found, may⟩ : ∃ spec, r.params.get? p.key = some spec ∧ spec.nullok := by
    rcases nullok with some | none
    · exact Option.map_eq_some_iff.1 some
    · cases none.2
  have admitted : r.objection? p.key .null = none :=
    (objection?_eq_none_iff found).2 ⟨fun _ => may, fun other => absurd rfl other⟩
  rw [resolve, bound]
  dsimp only
  rw [admitted]

/-- Without a value and a default, a parameter that may be NULL is NULL. -/
theorem resolve_of_unbound {r : RenderContext} {p : ParamRef} (nullok : r.nullok p.key)
    (unbound : r.values.get? p.key.display = none) (bare : p.default = none) :
    r.resolve p = .ok .null := by
  rw [resolve, unbound, bare]
  exact if_pos nullok

/-- NULL for a parameter that may be NULL is the value that the parameter has without any, if it has
no default. -/
theorem resolve_set_null {r : RenderContext} {p : ParamRef} {name : String}
    (unbound : r.values.get? name = none) (nullok : p.key.display = name → r.nullok p.key)
    (bare : p.key.display = name → p.default = none) :
    RenderContext.resolve { r with values := r.values.set name .null } p = r.resolve p := by
  by_cases here : p.key.display = name
  · have bound : (r.values.set name .null).get? p.key.display = some .null := by
      rw [here, Bindings.get?_set_self]
    rw [resolve_of_unbound (nullok here) (here ▸ unbound) (bare here)]
    exact resolve_of_null (nullok here) bound
  · unfold resolve
    rw [Bindings.get?_set_of_ne _ here]
    rfl

end RenderContext

namespace Statement

variable {s : ParseSettings} {delimiter text : List Char} {st : Statement} {values : Bindings}
  {spec : ParamSpec}

/-- Statements of which the same is written have the same text. -/
theorem write_congr {st₁ st₂ : Statement} {values₁ values₂ : Bindings} {settings : RenderSettings}
    {d : Dialect} (same : (st₁.context values₁ settings d).body st₁.body =
      (st₂.context values₂ settings d).body st₂.body) :
    (st₁.write values₁ settings d).1 = (st₂.write values₂ settings d).1 := by
  have written (st : Statement) (values : Bindings) : (st.write values settings d).1 =
      (Render.start ((st.context values settings d).body st.body)).1.map
        fun phrase => String.ofList (phrase.write settings.pretty) := rfl
  rw [written, written, same]

/-- A key of the table that is shown under the name of an entry is the key of the entry. -/
theorem Parsed.key_of_display (h : st.Parsed s delimiter text) (member : spec ∈ st.params.specs)
    {key : ParamKey} {spec' : ParamSpec} (found : st.params.get? key = some spec')
    (name : key.display = spec.name) : key = spec.key := by
  have names : (st.params.specs.map ParamSpec.name).Nodup := by
    rw [h.params_eq]
    exact ParamTable.nodup_names fun spec member => Lexer.legible_tokens member
  have own : spec'.key = key := by simpa using List.find?_some found
  have same : spec' = spec := by
    refine List.inj_on_of_nodup_map names (List.mem_of_find?_eq_some found) member ?_
    rw [ParamSpec.name, own, name]
  rw [← own, same]

/-- Of the parameters of the table, NULL for one that has no value is NULL for this one only. -/
theorem Parsed.holdsNull_set_null (h : st.Parsed s delimiter text) (member : spec ∈ st.params.specs)
    (unbound : values.get? spec.name = none) (p : ParamRef) :
    (p.holdsNull st.params values → p.holdsNull st.params (values.set spec.name .null)) ∧
      (p.holdsNull st.params (values.set spec.name .null) →
        p.holdsNull st.params values ∨ p.key = spec.key) := by
  by_cases here : p.key.display = spec.name
  · have notNull : values.isNull p.key.display = false := by
      rw [Bindings.isNull, here, unbound]
    unfold ParamRef.holdsNull
    rw [notNull]
    cases found : st.params.get? p.key with
    | none => exact ⟨by simp, fun null => .inl (by simpa using null)⟩
    | some spec' =>
      have key := h.key_of_display member found here
      exact ⟨fun marked => by simp_all, fun _ => .inr key⟩
  · have same : (values.set spec.name .null).isNull p.key.display =
        values.isNull p.key.display := by
      rw [Bindings.isNull, Bindings.isNull, Bindings.get?_set_of_ne _ here]
    unfold ParamRef.holdsNull
    rw [same]
    exact ⟨id, .inl⟩

/-- A parameter that may be NULL and has no default is the same without a value as with NULL, but
where it is compared: if NULL is bound to it, comparisons with it become tests for NULL before the
statement is written. -/
theorem Parsed.render_set_null (h : st.Parsed s delimiter text) {settings : RenderSettings}
    (inline : settings.style = .inline) (member : spec ∈ st.params.specs) (nullok : spec.nullok)
    (bare : ∀ p ∈ st.body.params, p.key = spec.key → p.default = none)
    (unbound : values.get? spec.name = none) (d : Dialect) :
    st.render (values.set spec.name .null) settings d =
        ((st.testForNulls (values.set spec.name .null)).write values settings d).1 ∧
      ((∀ e ∈ st.body.exprs, e.ComparesApart (·.key = spec.key)) →
        (∀ t p, [.text t, .param p] <:+: st.body.fragments → p.key = spec.key →
          Fragment.testForNull? t = none) →
        st.render (values.set spec.name .null) settings d = st.render values settings d) := by
  have null (p : ParamRef) (hp : p ∈ st.body.params) (name : p.key.display = spec.name) :
      (st.context values settings d).nullok p.key ∧ p.default = none := by
    obtain ⟨spec', -, -, found⟩ := h.get?_params hp
    have key := h.key_of_display member found name
    have may : (st.context values settings d).nullok p.key := by
      rw [RenderContext.nullok, key]
      change ((st.params.get? spec.key).map _).getD false = true
      rw [(h.get?_specs member).1]
      exact nullok
    exact ⟨may, bare p hp key⟩
  have first : st.render (values.set spec.name .null) settings d =
      ((st.testForNulls (values.set spec.name .null)).write values settings d).1 := by
    have same : (st.context (values.set spec.name .null) settings d).body
          (st.testForNulls (values.set spec.name .null)).body =
        (st.context values settings d).body (st.testForNulls (values.set spec.name .null)).body := by
      refine RenderContext.body_congr (r := st.context values settings d) fun p hp =>
        RenderContext.paramText_congr_values fun unmarked => ?_
      have occurs := st.body.leaves_params.before p hp unmarked
      exact RenderContext.resolve_set_null unbound (fun name => (null p occurs name).1)
        fun name => (null p occurs name).2
    exact write_congr same
  refine ⟨first, fun apart behind => first.trans ?_⟩
  have fewer (p : ParamRef) := (h.holdsNull_set_null member unbound p).1
  have extra (p : ParamRef) (null : p.holdsNull st.params (values.set spec.name .null)) :
      p.holdsNull st.params values ∨ decide (p.key = spec.key) = true :=
    ((h.holdsNull_set_null member unbound p).2 null).imp_right decide_eq_true
  refine write_congr (RenderContext.body_testForNulls_congr fewer extra apart h.separated
    (fun t p inside key => behind t p inside (of_decide_eq_true key)) fun p hp key => ?_)
  have key' : p.key = spec.key := of_decide_eq_true key
  have name : p.key.display = spec.name := congrArg ParamKey.display key'
  obtain ⟨may, none⟩ := null p hp name
  have value : (st.context values settings d).resolve p = .ok .null :=
    RenderContext.resolve_of_unbound may (name ▸ unbound) none
  exact RenderContext.param_marked inline value

/-- `UPDATE t SET a = ##p::int::null`. -/
def ofNewValue : Statement where
  sql := "UPDATE t SET a = ##p::int::null"
  body := .update ⟨⟨["t"]⟩, none, [⟨"a", .param (.ofKey (.named "p"))⟩], none⟩
  params := ⟨[⟨.named "p", none, some "int", true⟩], []⟩

theorem parsed_ofNewValue : ofNewValue.Parsed {} [] ofNewValue.sql.toList := by
  let ts : List Token :=
    [.onLine (.keyword .UPDATE) "" "UPDATE" 0, .onLine (.identifier "t") " " "t" 7,
      .onLine (.keyword .SET) " " "SET" 9, .onLine (.identifier "a") " " "a" 13,
      .onLine (.punct .eq) " " "=" 15,
      .onLine (.param ⟨.named "p", some "int", none, true, false⟩) " " "##p::int::null" 17]
  let p : Piece := .onLine ts 31
  have found : ((Script.ofText [] ofNewValue.sql.toList).settle .standard).piece {} = .ok p := by
    decide +kernel
  have inner : p.innerTokens .standard = ts ++ [p.terminator] := by decide +kernel
  exact parsed_of_piece found nofun inner rfl rfl rfl rfl rfl rfl

/-- A new value is written as NULL, whether NULL is bound or nothing. -/
theorem Parsed.render_set_null_newValue :
    ofNewValue.Parsed {} [] ofNewValue.sql.toList ∧
      ofNewValue.render (Bindings.set .empty "p" .null) {} .standard =
        ofNewValue.render .empty {} .standard ∧
      ofNewValue.render .empty {} .standard = .ok "UPDATE t SET a = NULL" := by
  have apart : ∀ e ∈ ofNewValue.body.exprs, e.ComparesApart (·.key = .named "p") := by
    intro e he op operands same
    have param : e = .param (.ofKey (.named "p")) := List.mem_singleton.1 he
    cases param.symm.trans same
  have nothing : Bindings.empty.get? "p" = none := rfl
  have member : ⟨.named "p", none, some "int", true⟩ ∈ ofNewValue.params.specs :=
    List.mem_singleton_self _
  have inline : RenderSettings.style {} = .inline := rfl
  obtain ⟨-, same⟩ := parsed_ofNewValue.render_set_null inline member rfl (by decide) nothing
    .standard
  have unbound := same apart fun t p inside => by simp [ofNewValue, Body.fragments] at inside
  exact ⟨parsed_ofNewValue, unbound, by decide +kernel⟩

/-- NULL matters for `b = ##p`, which is a test for NULL only if NULL is bound. -/
theorem not_render_set_null :
    ¬ ∀ (s : ParseSettings) (delimiter text : List Char) (st : Statement) (values : Bindings)
        (spec : ParamSpec) (settings : RenderSettings) (d : Dialect),
        st.Parsed s delimiter text → settings.style = .inline → spec ∈ st.params.specs →
        spec.nullok → (∀ p ∈ st.body.params, p.key = spec.key → p.default = none) →
        values.get? spec.name = none →
        st.render (values.set spec.name .null) settings d = st.render values settings d := by
  intro same
  have unbound := same {} [] _ ofAssignment ⟨[("q", .int 1)]⟩
    ⟨.named "p", none, some "int", true⟩ {} .standard parsed_ofAssignment rfl (by decide) rfl
    (by decide) (by decide)
  have compared : ofAssignment.render ⟨[("q", .int 1)]⟩ {} .standard =
      .ok "UPDATE t SET a = NULL WHERE b = NULL AND c != 1" := by decide +kernel
  have tested : ofAssignment.render (Bindings.set ⟨[("q", .int 1)]⟩ "p" .null) {} .standard =
      .ok "UPDATE t SET a = NULL WHERE b IS NULL AND c != 1" := by decide +kernel
  exact absurd (tested.symm.trans (unbound.trans compared)) (by decide +kernel)

end Statement

end BoundSql
