import BoundSql.Proofs.Render.Rendered
import BoundSql.Proofs.Script.Cutout

/-!
# Writing statements that are kept as text

A statement that is kept as text is written as its fragments. Where no parameter is NULL they stay as
they were read (`Statement.Parsed.testForNulls_eq_self`), so that a text without placeholders is
written as it is (`Statement.Parsed.cut_verbatim`).
-/

namespace BoundSql

open Text Token

namespace Fragment

variable {parts : List Fragment} {isNull : ParamRef → Bool}

/-- Where no parameter is NULL, fragments stay as they are. -/
theorem Separated.tested (h : Separated parts) (notNull : ∀ p, .param p ∈ parts → isNull p = false) :
    Tested isNull parts := by
  induction parts using List.reverseRecOn with
  | nil => exact .nil
  | append_singleton front part ih =>
    have apart := List.isChain_append.1 h.apart
    have front' : Separated front :=
      ⟨fun t member => h.nonempty t (List.mem_append_left _ member), apart.1⟩
    refine (ih front' fun p member => notNull p (List.mem_append_left _ member)).concat ?_
    cases part with
    | text t =>
      have filled : t.isEmpty = false := by simpa using h.nonempty t (by simp)
      rcases List.eq_nil_or_concat front with rfl | ⟨before, last, rfl⟩
      · exact pushText_nil filled
      · cases last with
        | text u =>
          have joined := apart.2.2 (.text u) (by simp) (.text t) rfl
          simp [ref?] at joined
        | param p =>
          rw [List.concat_eq_append]
          exact pushText_concat_param filled before p
    | param p =>
      have kept := notNull p (by simp)
      simp only [pushTested, kept, Bool.false_eq_true, if_false]

end Fragment

namespace Statement

variable {s : ParseSettings} {delimiter text : List Char} {st : Statement} {parts : List Fragment}

theorem Parsed.separated (h : st.Parsed s delimiter text) :
    Fragment.Separated st.body.fragments := by
  cases body : st.body with
  | verbatim parts => exact (h.exists_cuts body).1
  | _ => exact Fragment.separated_nil

/-- Where no parameter is NULL, a statement stays as it is. -/
theorem Parsed.testForNulls_eq_self (h : st.Parsed s delimiter text) {values : Bindings}
    (notNull : ∀ p ∈ st.body.params, p.holdsNull st.params values = false) :
    st.testForNulls values = st := by
  obtain ⟨sql, body, params⟩ := st
  cases body with
  | verbatim parts =>
    have tested : Fragment.Tested (ParamRef.holdsNull params values) parts :=
      h.separated.tested fun p member => notNull p (List.mem_filterMap.2 ⟨_, member, rfl⟩)
    exact congrArg (Statement.mk sql · params) (congrArg Body.verbatim tested.foldl_eq)
  | _ => exact congrArg (Statement.mk sql · params) (Body.testForNulls_eq_self nofun notNull)

/-- A text as the only fragment, if it is not empty, is written as it is. -/
theorem write_of_text (kept : st.body = .verbatim (Fragment.ofText st.sql.toList))
    (values : Bindings) (settings : RenderSettings) (d : Dialect) :
    st.write values settings d = (.ok st.sql, []) := by
  rw [write, kept, Fragment.ofText]
  by_cases empty : st.sql.toList.isEmpty
  · rw [if_pos empty, ← String.ofList_toList (s := st.sql), List.isEmpty_iff.1 empty]
    rfl
  · rw [if_neg empty, String.ofList_toList]
    have written : String.ofList (st.sql.toList ++ []) = st.sql := by simp
    exact congrArg (fun sql => (Except.ok sql, [])) written

/-- A statement that is kept as text loses nothing of it: its fragments, with what is cut out for
the parameters in the places of these, spell it. Each parameter is cut out as its placeholder, with
the constant in front if that is its default, and in the order of the text. No text between
parameters is empty and none stands beside another. A text without placeholders is written as it is,
whatever is bound and however it is written. -/
theorem Parsed.cut_verbatim (h : st.Parsed s delimiter text) (kept : st.body = .verbatim parts) :
    Fragment.Separated parts ∧
      (∃ cuts, Fragment.Cut parts cuts st.sql.toList ∧
        cuts.map Cutout.placeholder = (st.tokens s.dialect).filter Token.isPlaceholder ∧
        ∀ c ∈ cuts, c.tokens <:+: st.tokens s.dialect) ∧
      ((∀ t ∈ st.tokens s.dialect, t.isPlaceholder = false) →
        ∀ values settings d, st.render values settings d = .ok st.sql) := by
  obtain ⟨separated, cuts, cut, placeholders, inside⟩ := h.exists_cuts kept
  refine ⟨separated, ⟨cuts, cut, placeholders, inside⟩, fun plain values settings d => ?_⟩
  have nothing : cuts = [] := by
    rw [List.filter_eq_nil_iff.2 fun t ht => by simp [plain t ht]] at placeholders
    exact List.map_eq_nil_iff.1 placeholders
  subst nothing
  have whole : st.body = .verbatim (Fragment.ofText st.sql.toList) :=
    kept.trans (congrArg _ (cut.eq_ofText separated))
  have notNull : ∀ p ∈ st.body.params, p.holdsNull st.params values = false := by
    rw [whole]
    change ∀ p ∈ (Fragment.ofText st.sql.toList).filterMap Fragment.ref?, _
    rw [Fragment.filterMap_ref?_ofText]
    exact List.forall_mem_nil _
  rw [render, h.testForNulls_eq_self notNull, write_of_text whole]

/-- `EXEC p 7 /* name:a */, :b` is kept as text, 7 being the default of the first parameter. -/
def ofCall : Statement where
  sql := "EXEC p 7 /* name:a */, :b"
  body := .verbatim [.text "EXEC p ", .param ⟨.named "a", some (.integer 7), false⟩, .text ", ",
    .param (.ofKey (.named "b"))]
  params := ⟨[⟨.named "a", none, none, false⟩, ⟨.named "b", none, none, false⟩], []⟩

theorem parsed_ofCall : ofCall.Parsed {} [] ofCall.sql.toList := by
  let ts : List Token :=
    [.onLine (.identifier "EXEC") "" "EXEC" 0, .onLine (.identifier "p") " " "p" 5,
      .onLine (.integer 7) " " "7" 7,
      .onLine (.param ⟨.named "a", none, none, false, true⟩) " " "/* name:a */" 9,
      .onLine (.punct .comma) "" "," 21, .onLine (.hostParam "b") " " ":b" 23]
  let p : Piece := .onLine ts 25
  have found : ((Script.ofText [] ofCall.sql.toList).settle .standard).piece {} = .ok p := by
    decide +kernel
  have inner : p.innerTokens .standard = ts ++ [p.terminator] := by decide +kernel
  exact parsed_of_verbatim found nofun inner rfl rfl rfl rfl rfl rfl

/-- `EXEC p` is kept as text. -/
def ofName : Statement where
  sql := "EXEC p"
  body := .verbatim [.text "EXEC p"]
  params := ⟨[], []⟩

theorem parsed_ofName : ofName.Parsed {} [] ofName.sql.toList := by
  let ts : List Token :=
    [.onLine (.identifier "EXEC") "" "EXEC" 0, .onLine (.identifier "p") " " "p" 5]
  let p : Piece := .onLine ts 6
  have found : ((Script.ofText [] ofName.sql.toList).settle .standard).piece {} = .ok p := by
    decide +kernel
  have inner : p.innerTokens .standard = ts ++ [p.terminator] := by decide +kernel
  exact parsed_of_verbatim found nofun inner rfl rfl rfl rfl rfl rfl

/-- Of the call, its two placeholders are cut out and what is left is kept; without placeholders
all of it is written. -/
theorem Parsed.cut_verbatim_call :
    ofCall.Parsed {} [] ofCall.sql.toList ∧
      (∃ cuts, Fragment.Cut [.text "EXEC p ", .param ⟨.named "a", some (.integer 7), false⟩,
          .text ", ", .param (.ofKey (.named "b"))] cuts "EXEC p 7 /* name:a */, :b".toList ∧
        cuts.map (fun c => String.ofList c.placeholder.lexeme) = ["/* name:a */", ":b"]) ∧
      ofName.Parsed {} [] ofName.sql.toList ∧ (∀ t ∈ ofName.tokens .standard, t.isPlaceholder = false) ∧
      ∀ values settings d, ofName.render values settings d = .ok "EXEC p" := by
  obtain ⟨-, ⟨cuts, cut, placeholders, -⟩, -⟩ := parsed_ofCall.cut_verbatim rfl
  have plain : ∀ t ∈ ofName.tokens .standard, t.isPlaceholder = false := by decide +kernel
  have found : ((ofCall.tokens .standard).filter Token.isPlaceholder).map
      (fun t => String.ofList t.lexeme) = ["/* name:a */", ":b"] := by decide +kernel
  refine ⟨parsed_ofCall, ⟨cuts, cut, ?_⟩, parsed_ofName, plain,
    (parsed_ofName.cut_verbatim rfl).2.2 plain⟩
  rw [← found, ← placeholders, List.map_map]
  rfl

end Statement

end BoundSql
