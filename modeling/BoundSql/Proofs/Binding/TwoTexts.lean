import BoundSql.Proofs.Binding.Unbound
import BoundSql.Proofs.Render.Sourced
import BoundSql.Proofs.Token.Quoted

/-!
# Statements with another text bound

With two stores that differ in the text of one name, writing takes the same course. The words of
what is written are the same but for the literals of that name: `TwoTexts.parallel_body`. So are
the tokens that the text is lexed as, whatever the two texts hold:
`Statement.Parsed.kinds_two_texts`.
-/

namespace BoundSql

open Phrase Render Text Token

/-- The kinds of tokens are the same but for `n` places, where one is the string `v₁` and the other
the string `v₂`. -/
def SameButFor (v₁ v₂ : String) (n : Nat) (ks₁ ks₂ : List TokenKind) : Prop :=
  ∃ kinds : List (Option TokenKind), kinds.count none = n ∧
    ks₁ = kinds.map (·.getD (.string v₁)) ∧ ks₂ = kinds.map (·.getD (.string v₂))

namespace SameButFor

variable {v₁ v₂ : String} {n : Nat} {ks₁ ks₂ : List TokenKind}

theorem nil : SameButFor v₁ v₂ 0 [] [] := ⟨[], rfl, rfl, rfl⟩

theorem count_none_map_some (ks : List TokenKind) :
    (ks.map some).count (none : Option TokenKind) = 0 := by
  rw [List.count_eq_zero]
  simp

/-- Kinds in front of both. -/
theorem append (ks : List TokenKind) (h : SameButFor v₁ v₂ n ks₁ ks₂) :
    SameButFor v₁ v₂ n (ks ++ ks₁) (ks ++ ks₂) := by
  obtain ⟨kinds, hcount, rfl, rfl⟩ := h
  refine ⟨ks.map some ++ kinds, ?_, ?_, ?_⟩
  · rw [List.count_append, count_none_map_some, Nat.zero_add, hcount]
  all_goals simp [Function.comp_def]

/-- Kinds behind both. -/
theorem concat (ks : List TokenKind) (h : SameButFor v₁ v₂ n ks₁ ks₂) :
    SameButFor v₁ v₂ n (ks₁ ++ ks) (ks₂ ++ ks) := by
  obtain ⟨kinds, hcount, rfl, rfl⟩ := h
  refine ⟨kinds ++ ks.map some, ?_, ?_, ?_⟩
  · rw [List.count_append, count_none_map_some, Nat.add_zero, hcount]
  all_goals simp [Function.comp_def]

/-- One more of the strings in front. -/
theorem hole (h : SameButFor v₁ v₂ n ks₁ ks₂) :
    SameButFor v₁ v₂ (n + 1) (.string v₁ :: ks₁) (.string v₂ :: ks₂) := by
  obtain ⟨kinds, rfl, rfl, rfl⟩ := h
  exact ⟨none :: kinds, by simp, rfl, rfl⟩

end SameButFor

/-- Two stores of values that differ in the text bound to one name, and what else the text of a
statement depends on. Values are written in place. -/
structure TwoTexts where
  context : RenderContext
  name : String
  firstText : String
  secondText : String
  firstValues : Bindings
  secondValues : Bindings
  first_get? : firstValues.get? name = some (.text firstText)
  second_get? : secondValues.get? name = some (.text secondText)
  others : ∀ n, n ≠ name → firstValues.get? n = secondValues.get? n

namespace TwoTexts

variable (t : TwoTexts)

/-- The literal of a text. -/
def literal (text : String) : String := quoteString t.context.dialect text

/-- The texts for a parameter: the literals of the two texts for the name that differs, else the
same. -/
def Hole (e : Entry) (s₁ s₂ : String) : Prop :=
  if e.name = t.name then s₁ = t.literal t.firstText ∧ s₂ = t.literal t.secondText else s₁ = s₂

variable {t}

theorem Hole.opens {e : Entry} {s₁ s₂ : String} {p₁ p₂ : Phrase} (h : t.Hole e s₁ s₂)
    (hp : p₁.opensWithMinus = p₂.opensWithMinus) :
    opensWithMinus (.text s₁ :: p₁) = opensWithMinus (.text s₂ :: p₂) := by
  unfold Hole at h
  split at h
  · obtain ⟨rfl, rfl⟩ := h
    simp only [opensWithMinus, literal, toList_quoteString]
  · subst h
    unfold opensWithMinus
    cases s₁.toList with
    | nil => exact hp
    | cons => rfl

/-- The two ways of writing. -/
def ways (t : TwoTexts) : TwoWays where
  context := t.context
  firstStyle := .inline
  secondStyle := .inline
  firstValues := t.firstValues
  secondValues := t.secondValues
  Hole := t.Hole
  opens := Hole.opens
  InOrder := False

/-! ## Parameters -/

/-- Whether a text may be bound to a parameter does not depend on the text. -/
theorem objection?_text (r : RenderContext) (key : ParamKey) (v₁ v₂ : String) :
    r.objection? key (.text v₁) = r.objection? key (.text v₂) := by
  have haccepts (type : ValueType) : type.accepts (.text v₁) = type.accepts (.text v₂) := by
    cases type <;> rfl
  unfold RenderContext.objection?
  cases r.params.get? key with
  | none => rfl
  | some spec =>
    dsimp only
    rw [haccepts]
    rfl

/-- A text bound to a parameter is refused or written as a literal. -/
theorem paramText_text {r : RenderContext} {p : ParamRef} {v : String} (used : List String)
    (hinline : r.settings.style = .inline) (hbound : p.nullBound = false)
    (hget : r.values.get? p.key.display = some (.text v)) :
    r.paramText p used = (r.objection? p.key (.text v)).elim (.ok (quoteString r.dialect v))
      fun reason => .error (.bind p.key.display reason) := by
  unfold RenderContext.paramText RenderContext.resolve
  simp only [hbound, hinline, hget, Bool.false_eq_true, if_false]
  cases r.objection? p.key (.text v) <;> rfl

/-- Any other parameter is written as the same with both stores. -/
theorem paramText_of_ne {p : ParamRef} (h : p.nullBound ∨ p.key.display ≠ t.name)
    (used : List String) : t.ways.first.paramText p used = t.ways.second.paramText p used := by
  unfold RenderContext.paramText
  split
  · rfl
  · rename_i hbound
    have hvalue : t.ways.first.values.get? p.key.display =
        t.ways.second.values.get? p.key.display := t.others _ (h.resolve_left hbound)
    have hsame : t.ways.first.resolve p = t.ways.second.resolve p := by
      unfold RenderContext.resolve
      rw [hvalue]
      rfl
    rw [hsame]
    rfl

/-- A text for a parameter is all that differs. -/
theorem alike_hole {e : Entry} {s₁ s₂ : String} (h : t.Hole e s₁ s₂) :
    t.ways.Alike [e] [.text s₁] [.text s₂] :=
  ⟨[e], .hole h .nil, .refl _, fun _ => rfl⟩

/-- A parameter is written as the literal of its text, or as the same with both stores. -/
theorem paramAlike {p : ParamRef} (h : p.nullBound → p.key.display ≠ t.name) :
    t.ways.ParamAlike p := by
  refine parallel_param fun used => ?_
  by_cases hother : p.nullBound ∨ p.key.display ≠ t.name
  · have hname : p.key.display ≠ t.name := hother.elim h id
    have hsame := paramText_of_ne hother used
    cases htext : t.ways.first.paramText p used with
    | error e => exact .inl ⟨e, rfl, hsame.symm.trans htext⟩
    | ok text =>
      exact .inr ⟨text, text, rfl, hsame.symm.trans htext, alike_hole ((if_neg hname).mpr rfl)⟩
  · simp only [not_or, Bool.not_eq_true, Decidable.not_not] at hother
    obtain ⟨hbound, hname⟩ := hother
    have htext₁ := paramText_text (r := t.ways.first) used rfl hbound (hname ▸ t.first_get?)
    have htext₂ := paramText_text (r := t.ways.second) used rfl hbound (hname ▸ t.second_get?)
    have hsame : t.ways.first.objection? p.key (.text t.firstText) =
        t.ways.second.objection? p.key (.text t.secondText) :=
      objection?_text t.ways.first p.key _ _
    rw [hsame] at htext₁
    cases hreason : t.ways.second.objection? p.key (.text t.secondText) with
    | some reason =>
      rw [hreason] at htext₁ htext₂
      exact .inl ⟨_, htext₁, htext₂⟩
    | none =>
      rw [hreason] at htext₁ htext₂
      exact .inr ⟨_, _, htext₁, htext₂, alike_hole ((if_pos hname).mpr ⟨rfl, rfl⟩)⟩

/-! ## Words -/

/-- The words of phrases that are alike but for a string literal are the same but for the string. -/
theorem kinds_of_alike {es : List Entry} {p₁ p₂ : Phrase}
    (h : Phrase.Alike t.Hole es p₁ p₂) :
    SameButFor t.firstText t.secondText ((es.map Entry.name).count t.name)
      ((wordsIn t.context.dialect p₁).map (·.kind))
      ((wordsIn t.context.dialect p₂).map (·.kind)) := by
  induction h with
  | nil => exact .nil
  | cons m _ ih =>
    rw [wordsIn_cons, wordsIn_cons, List.map_append, List.map_append]
    exact ih.append _
  | @hole e es s₁ s₂ p₁ p₂ here _ ih =>
    rw [wordsIn_cons, wordsIn_cons, List.map_append, List.map_append, List.map_cons]
    unfold Hole at here
    split at here
    · rename_i hname
      obtain ⟨rfl, rfl⟩ := here
      rw [hname, List.count_cons_self, Mark.words, Mark.words, literal, literal,
        (spells_string _ t.firstText).words_eq, (spells_string _ t.secondText).words_eq]
      exact ih.hole
    · rename_i hname
      subst here
      rw [List.count_cons_of_ne hname]
      exact ih.append _

/-- A statement in which no parameter of the name is marked as NULL is written, with both stores, as
the same words but for the literals of the two texts, one for each time the name is recorded. -/
theorem parallel_body (t : TwoTexts) {b : Body}
    (unmarked : ∀ p ∈ b.params, p.nullBound → p.key.display ≠ t.name) :
    Parallel (fun recorded p₁ p₂ => SameButFor t.firstText t.secondText
        ((recorded.map Entry.name).count t.name) ((wordsIn t.context.dialect p₁).map (·.kind))
        ((wordsIn t.context.dialect p₂).map (·.kind)))
      (t.ways.first.body b) (t.ways.second.body b) := by
  have order : b.EveryQuery (Query.BoundsInOrder t.ways) :=
    Body.everyQuery_of_forall (fun _ => False.elim) b
  refine (t.ways.parallel_body (fun p hp => paramAlike (unmarked p hp)) order).mono ?_
  rintro recorded p₁ p₂ ⟨es, alike, perm, -⟩
  rw [← (perm.map Entry.name).count_eq]
  exact kinds_of_alike alike

end TwoTexts

/-! ## Statements -/

namespace Statement

variable {s : ParseSettings} {delimiter text : List Char} {st : Statement}
  {values values₁ values₂ : Bindings}

/-- Only parameters to which NULL is bound are marked as NULL. -/
theorem Parsed.isNull_of_marked (h : st.Parsed s delimiter text) {p : ParamRef}
    (member : p ∈ (st.testForNulls values).body.params) (marked : p.nullBound) :
    values.isNull p.key.display := by
  obtain ⟨q, member', null, key⟩ :=
    st.body.leaves_params.marked (fun q hq => h.holds.1.nullBound hq) p member marked
  rw [ParamRef.holdsNull, h.holds.1.nullBound member', Bool.false_or, Bool.and_eq_true] at null
  exact key ▸ null.2

/-- The tests for NULL depend only on which values are NULL. -/
theorem testForNulls_congr (same : ∀ n, values₁.isNull n = values₂.isNull n) :
    st.testForNulls values₁ = st.testForNulls values₂ := by
  have null : ParamRef.holdsNull st.params values₁ = ParamRef.holdsNull st.params values₂ := by
    funext p
    rw [ParamRef.holdsNull, ParamRef.holdsNull, same]
  rw [testForNulls, testForNulls, null]

/-- What a text says cannot leave its literal. With values in place of parameters, a statement is
refused with one text for a name as with any other, or written as the same tokens but for the string
literals of the two texts, one for each time the name is recorded. The statement is taken apart and
has no collations, and no function whose name holds both a system variable and a dollar sign. -/
theorem Parsed.kinds_two_texts (h : st.Parsed s delimiter text) {settings : RenderSettings}
    (inline : settings.style = .inline) (taken : ∀ parts, st.body ≠ .verbatim parts)
    (uncollated : st.body.EveryQuery Query.Uncollated) (apart : ∀ e ∈ st.body.exprs, e.CallsApart)
    {name v₁ v₂ : String} (first : values₁.get? name = some (.text v₁))
    (second : values₂.get? name = some (.text v₂))
    (others : ∀ n, n ≠ name → values₁.get? n = values₂.get? n) :
    (∃ e used, (st.testForNulls values₁).write values₁ settings s.dialect = (.error e, used) ∧
      (st.testForNulls values₂).write values₂ settings s.dialect = (.error e, used)) ∨
    ∃ sql₁ sql₂ used,
      (st.testForNulls values₁).write values₁ settings s.dialect = (.ok sql₁, used) ∧
      (st.testForNulls values₂).write values₂ settings s.dialect = (.ok sql₂, used) ∧
      SameButFor v₁ v₂ (used.count name) ((s.dialect.allWords sql₁).map Word.kind)
        ((s.dialect.allWords sql₂).map Word.kind) := by
  have nulls : ∀ n, values₁.isNull n = values₂.isNull n := by
    intro n
    by_cases here : n = name
    · rw [here, Bindings.isNull, Bindings.isNull, first, second]
      rfl
    · rw [Bindings.isNull, Bindings.isNull, others n here]
  rw [← testForNulls_congr nulls]
  let t : TwoTexts :=
    { context := st.context values₁ settings s.dialect, name, firstText := v₁, secondText := v₂,
      firstValues := values₁, secondValues := values₂, first_get? := first, second_get? := second,
      others }
  have unmarked (p) (member : p ∈ (st.testForNulls values₁).body.params) (marked : p.nullBound) :
      p.key.display ≠ name := by
    intro same
    have null := h.isNull_of_marked member marked
    rw [same, Bindings.isNull, first] at null
    cases null
  have style : settings = { settings with style := .inline } := by rw [← inline]
  have way₁ : t.ways.first = st.context values₁ settings s.dialect :=
    congrArg (st.context values₁ · s.dialect) style.symm
  have way₂ : t.ways.second = st.context values₂ settings s.dialect :=
    congrArg (st.context values₂ · s.dialect) style.symm
  have parallel : Parallel _ (t.ways.first.body (st.testForNulls values₁).body)
    (t.ways.second.body (st.testForNulls values₁).body) := t.parallel_body unmarked
  rcases write_of_parallel parallel way₁ way₂ with
    failed | ⟨p₁, p₂, ps, used, rfl, given₁, given₂, written₁, written₂, kinds⟩
  · exact .inl failed
  · have words {r : RenderContext} {p : Phrase} (way : r.settings.style = .inline)
        (same : r.dialect = s.dialect)
        (given : Gives (r.body (st.testForNulls values₁).body) [] p (ps.map (·.key.display))) :
        s.dialect.words (p.write settings.pretty) = wordsIn s.dialect p := by
      have tidy : p.Tidy id r.dialect := h.tidy_body uncollated apart taken same
        (RenderContext.tidyParams_inline way) (.inr ⟨_, rfl⟩) given
      rw [← same]
      exact (tidy.spells settings.pretty).words_eq
    refine .inr ⟨_, _, _, written₁, written₂, ?_⟩
    rw [Dialect.allWords_ofList, Dialect.allWords_ofList, words rfl rfl given₁,
      words rfl rfl given₂, List.map_append, List.map_append]
    rw [Entry.map_name_ofParams] at kinds
    exact kinds.concat _

/-- `SELECT a FROM t WHERE b = :p`. -/
def ofCompared : Statement where
  sql := "SELECT a FROM t WHERE b = :p"
  body := .select { Select.ofColumns [⟨.name ⟨["a"]⟩, none⟩] with
    source := some ⟨[⟨.table ⟨["t"]⟩, none⟩], []⟩
    condition := some (.operation .eq [.name ⟨["b"]⟩, .param (.ofKey (.named "p"))]) }
  params := ⟨[⟨.named "p", none, none, false⟩], []⟩

theorem parsed_ofCompared : ofCompared.Parsed {} [] ofCompared.sql.toList := by
  let ts : List Token :=
    [.onLine (.keyword .SELECT) "" "SELECT" 0, .onLine (.identifier "a") " " "a" 7,
      .onLine (.keyword .FROM) " " "FROM" 9, .onLine (.identifier "t") " " "t" 14,
      .onLine (.keyword .WHERE) " " "WHERE" 16, .onLine (.identifier "b") " " "b" 22,
      .onLine (.punct .eq) " " "=" 24, .onLine (.hostParam "p") " " ":p" 26]
  let p : Piece := .onLine ts 28
  have found : ((Script.ofText [] ofCompared.sql.toList).settle .standard).piece {} = .ok p := by
    decide +kernel
  have inner : p.innerTokens .standard = ts ++ [p.terminator] := by decide +kernel
  exact parsed_of_piece found nofun inner rfl rfl rfl rfl rfl rfl

/-- A quote in the text does not end the literal, so that what is behind it is no comment. -/
theorem Parsed.kinds_two_texts_compared :
    ofCompared.Parsed {} [] ofCompared.sql.toList ∧
      ofCompared.render (Bindings.set .empty "p" (.text "x")) {} .standard =
        .ok "SELECT a FROM t WHERE b = 'x'" ∧
      ofCompared.render (Bindings.set .empty "p" (.text "' OR 1 --")) {} .standard =
        .ok "SELECT a FROM t WHERE b = ''' OR 1 --'" ∧
      SameButFor "x" "' OR 1 --" 1
        ((Dialect.standard.allWords "SELECT a FROM t WHERE b = 'x'").map Word.kind)
        ((Dialect.standard.allWords "SELECT a FROM t WHERE b = ''' OR 1 --'").map Word.kind) := by
  let values₁ := Bindings.set .empty "p" (.text "x")
  let values₂ := Bindings.set .empty "p" (.text "' OR 1 --")
  have written₁ : (ofCompared.testForNulls values₁).write values₁ {} .standard =
      (.ok "SELECT a FROM t WHERE b = 'x'", ["p"]) := by decide +kernel
  have written₂ : (ofCompared.testForNulls values₂).write values₂ {} .standard =
      (.ok "SELECT a FROM t WHERE b = ''' OR 1 --'", ["p"]) := by decide +kernel
  have uncollated : ofCompared.body.EveryQuery Query.Uncollated := by
    refine ⟨List.forall_mem_nil _, List.forall_mem_singleton.2
      (.intro (List.forall_mem_nil _) ?_ (List.forall_mem_nil _))⟩
    refine List.forall_mem_cons.2 ⟨.leaf trivial rfl rfl,
      List.forall_mem_singleton.2 (.intro trivial ?_ (List.forall_mem_nil _))⟩
    exact List.forall_mem_cons.2
      ⟨.leaf trivial rfl rfl, List.forall_mem_singleton.2 (.leaf trivial rfl rfl)⟩
  have apart : ∀ e ∈ ofCompared.body.exprs, e.CallsApart := by decide +kernel
  have inline : RenderSettings.style {} = .inline := rfl
  have others (n : String) (other : n ≠ "p") : values₁.get? n = values₂.get? n := by
    rw [Bindings.get?_set_of_ne _ other, Bindings.get?_set_of_ne _ other]
  refine ⟨parsed_ofCompared, congrArg Prod.fst written₁, congrArg Prod.fst written₂, ?_⟩
  rcases parsed_ofCompared.kinds_two_texts inline nofun uncollated apart
      (Bindings.get?_set_self .empty "p" _) (Bindings.get?_set_self .empty "p" _) others with
    ⟨e, used, failed, -⟩ | ⟨sql₁, sql₂, used, first, second, kinds⟩
  · exact nomatch written₁.symm.trans failed
  · cases written₁.symm.trans first
    cases written₂.symm.trans second
    exact kinds

-- A dollar sign behind a system variable can open a string that a text with dollar signs closes.
example :
    (Dialect.postgresql.allWords "SELECT @@x.a$$('hi')").length ≠
      (Dialect.postgresql.allWords "SELECT @@x.a$$('$$, 2) --')").length := by
  decide +kernel

end Statement

end BoundSql
