import BoundSql.Proofs.Binding.Expression
import BoundSql.Proofs.Script.Placeholders

/-!
# Anonymous placeholders

A statement that is written with the placeholder `?` for every parameter is written with `:name` as
the same text but for the placeholders. The names in their places are those that are reported, in
this order unless LIMIT and OFFSET change places: `Statement.Parsed.write_anonymous`.
-/

namespace BoundSql

open Phrase Render

/-- A piece of a text: characters, or the place of a name. -/
inductive Slot
  | text (cs : List Char)
  | named (name : String)
  deriving DecidableEq, Repr

namespace Slot

/-- The name that has its place here. -/
def name? : Slot → Option String
  | text _ => none
  | named name => some name

/-- The characters of the piece, `f` saying what stands in the place of a name. -/
def fill (f : String → String) : Slot → List Char
  | text cs => cs
  | named name => (f name).toList

end Slot

/-- A text with places for names. -/
abbrev Template := List Slot

namespace Template

/-- The names that have a place in the text, from left to right. -/
def names (t : Template) : List String := t.filterMap Slot.name?

/-- The text, `f` saying what stands in the place of a name. -/
def fill (t : Template) (f : String → String) : String := String.ofList (t.flatMap (Slot.fill f))

end Template

/-- Phrases that differ in the texts for parameters are one template that is filled in in two ways,
`placed` saying which parameters have a place in it. -/
theorem Phrase.Alike.exists_template {Hole : Entry → String → String → Prop} {f g : String → String}
    {es : List Entry} {p₁ p₂ : Phrase} (h : Phrase.Alike Hole es p₁ p₂) (placed : Entry → Bool)
    (texts : ∀ e ∈ es, ∀ s₁ s₂, Hole e s₁ s₂ →
      if placed e then s₁ = f e.name ∧ s₂ = g e.name else s₁ = s₂) (pretty : Bool) :
    ∃ t : Template, t.names = (es.filter placed).map Entry.name ∧
      String.ofList (p₁.write pretty) = t.fill f ∧ String.ofList (p₂.write pretty) = t.fill g := by
  suffices ∃ t : Template, t.names = (es.filter placed).map Entry.name ∧
      p₁.write pretty = t.flatMap (Slot.fill f) ∧ p₂.write pretty = t.flatMap (Slot.fill g) by
    obtain ⟨t, same, first, second⟩ := this
    exact ⟨t, same, congrArg String.ofList first, congrArg String.ofList second⟩
  induction h with
  | nil => exact ⟨[], rfl, rfl, rfl⟩
  | cons m _ ih =>
    obtain ⟨t, same, first, second⟩ := ih texts
    refine ⟨.text (m.write pretty) :: t, same, ?_, ?_⟩
    · rw [write_cons, first]
      rfl
    · rw [write_cons, second]
      rfl
  | @hole e es s₁ s₂ p₁ p₂ here _ ih =>
    obtain ⟨here', texts⟩ := List.forall_mem_cons.1 texts
    obtain ⟨t, same, first, second⟩ := ih texts
    have text := here' s₁ s₂ here
    split at text
    · rename_i place
      obtain ⟨rfl, rfl⟩ := text
      refine ⟨.named e.name :: t, ?_, ?_, ?_⟩
      · rw [List.filter_cons_of_pos place, List.map_cons, ← same]
        rfl
      · rw [write_cons, first]
        rfl
      · rw [write_cons, second]
        rfl
    · rename_i noPlace
      subst text
      refine ⟨.text s₁.toList :: t, ?_, ?_, ?_⟩
      · rw [List.filter_cons_of_neg noPlace, ← same]
        rfl
      · rw [write_cons, first]
        rfl
      · rw [write_cons, second]
        rfl

/-- One of the bounds of the query holds no parameters. -/
def Query.BoundsApart (q : Query) : Prop :=
  (∀ e ∈ q.limit?, e.params = []) ∨ ∀ e ∈ q.offset?, e.params = []

namespace TwoWays

/-- The placeholder `?` for every parameter, or `:name`. -/
def placeholders (r : RenderContext) (inOrder : Prop) : TwoWays where
  context := r
  firstStyle := .uqmark
  secondStyle := .colon
  firstValues := r.values
  secondValues := r.values
  Hole e s₁ s₂ := s₁ = "?" ∧ s₂ = ":" ++ e.name
  opens := by
    rintro e _ _ p₁ p₂ ⟨rfl, rfl⟩ -
    simp [opensWithMinus]
  InOrder := inOrder

variable {r : RenderContext} {inOrder : Prop}

theorem paramAlike_placeholders {p : ParamRef} (notNull : p.nullBound = false) :
    (placeholders r inOrder).ParamAlike p := by
  refine parallel_param fun used => .inr ⟨"?", ":" ++ p.key.display, ?_, ?_, ?_⟩
  · rw [RenderContext.paramText, notNull]
    rfl
  · rw [RenderContext.paramText, notNull]
    rfl
  · exact ⟨_, .hole ⟨rfl, rfl⟩ .nil, .refl _, fun _ => rfl⟩

/-- Where one of the bounds of every query holds no parameters, they stand in order. -/
theorem boundsInOrder_placeholders {q : Query}
    (apart : inOrder → r.dialect.limitOffset = true ∨ q.BoundsApart) :
    q.BoundsInOrder (placeholders r inOrder) :=
  fun order => (apart order).imp_right
    (Or.imp Expr.silent_renderOption Expr.silent_renderOption)

end TwoWays

namespace Statement

variable {s : ParseSettings} {delimiter text : List Char} {st : Statement}

/-- With the placeholder `?` a statement is refused as with `:name`, or written as the same text up
to the placeholders. The parameters that are reported are those with a place in the text. Their
order is that in the text if the dialect has LIMIT and OFFSET, or no query has parameters behind
both. -/
theorem Parsed.write_anonymous (h : st.Parsed s delimiter text) (values : Bindings)
    (settings : RenderSettings) (d : Dialect) :
    (∃ e used, st.write values { settings with style := .uqmark } d = (.error e, used) ∧
      st.write values { settings with style := .colon } d = (.error e, used)) ∨
    ∃ (t : Template) (used : List String),
      st.write values { settings with style := .uqmark } d = (.ok (t.fill fun _ => "?"), used) ∧
      st.write values { settings with style := .colon } d = (.ok (t.fill (":" ++ ·)), used) ∧
      t.names.Perm used ∧
      (d.limitOffset = true ∨ st.body.EveryQuery Query.BoundsApart → t.names = used) := by
  let r : RenderContext := { dialect := d, settings, params := st.params, values }
  let inOrder : Prop := d.limitOffset = true ∨ st.body.EveryQuery Query.BoundsApart
  let ways : TwoWays := .placeholders r inOrder
  have order : st.body.EveryQuery (Query.BoundsInOrder ways) := by
    by_cases follows : inOrder
    · rcases follows with kept | apart
      · exact Body.everyQuery_of_forall
          (fun q => TwoWays.boundsInOrder_placeholders fun _ => .inl kept) _
      · exact apart.mono fun q hq => TwoWays.boundsInOrder_placeholders fun _ => .inr hq
    · exact Body.everyQuery_of_forall (fun q given => absurd given follows) _
  have alike : Parallel ways.Alike (ways.first.body st.body) (ways.second.body st.body) :=
    TwoWays.parallel_body
      (fun p hp => TwoWays.paramAlike_placeholders (h.holds.1.nullBound hp)) order
  rcases write_of_parallel alike rfl rfl with failed |
    ⟨p₁, p₂, ps, used, rfl, -, -, written₁, written₂, es, holes, perm, same⟩
  · exact .inl failed
  · obtain ⟨t, names, first, second⟩ := holes.exists_template (f := fun _ => "?") (g := (":" ++ ·))
      (fun _ => true) (fun e _ s₁ s₂ here => here) settings.pretty
    rw [List.filter_true] at names
    have recorded := perm.map Entry.name
    rw [← names, Entry.map_name_ofParams] at recorded
    refine .inr ⟨t, ps.map (·.key.display), ?_, ?_, recorded, fun follows => ?_⟩
    · rw [← first]
      exact written₁
    · rw [← second]
      exact written₂
    · rw [names, same follows, Entry.map_name_ofParams]

/-- `SELECT a FROM t LIMIT :n OFFSET :m`. -/
def ofBounds : Statement where
  sql := "SELECT a FROM t LIMIT :n OFFSET :m"
  body := .select { Select.ofColumns [⟨.name ⟨["a"]⟩, none⟩] with
    source := some ⟨[⟨.table ⟨["t"]⟩, none⟩], []⟩
    limit := some (.param (.ofKey (.named "n")))
    offset := some (.param (.ofKey (.named "m"))) }
  params := ⟨[⟨.named "n", none, none, false⟩, ⟨.named "m", none, none, false⟩], []⟩

theorem parsed_ofBounds : ofBounds.Parsed {} [] ofBounds.sql.toList := by
  let ts : List Token :=
    [.onLine (.keyword .SELECT) "" "SELECT" 0, .onLine (.identifier "a") " " "a" 7,
      .onLine (.keyword .FROM) " " "FROM" 9, .onLine (.identifier "t") " " "t" 14,
      .onLine (.keyword .LIMIT) " " "LIMIT" 16, .onLine (.hostParam "n") " " ":n" 22,
      .onLine (.keyword .OFFSET) " " "OFFSET" 25, .onLine (.hostParam "m") " " ":m" 32]
  let p : Piece := .onLine ts 34
  have found : ((Script.ofText [] ofBounds.sql.toList).settle .standard).piece {} = .ok p := by
    decide +kernel
  have inner : p.innerTokens .standard = ts ++ [p.terminator] := by decide +kernel
  exact parsed_of_piece found nofun inner rfl rfl rfl rfl rfl rfl

/-- In a dialect that has no LIMIT the parameters behind LIMIT and OFFSET change places, but not in
what is reported. -/
theorem Parsed.write_anonymous_bounds :
    ofBounds.Parsed {} [] ofBounds.sql.toList ∧
      ofBounds.write .empty { style := .uqmark } .oracle =
        (.ok "SELECT a FROM t OFFSET ? ROWS FETCH NEXT ? ROWS ONLY", ["n", "m"]) ∧
      ofBounds.write .empty { style := .colon } .oracle =
        (.ok "SELECT a FROM t OFFSET :m ROWS FETCH NEXT :n ROWS ONLY", ["n", "m"]) ∧
      ∃ t : Template, t.names.Perm ["n", "m"] ∧
        "SELECT a FROM t OFFSET ? ROWS FETCH NEXT ? ROWS ONLY" = t.fill (fun _ => "?") ∧
        "SELECT a FROM t OFFSET :m ROWS FETCH NEXT :n ROWS ONLY" = t.fill (":" ++ ·) := by
  have anonymous : ofBounds.write .empty { style := .uqmark } .oracle =
      (.ok "SELECT a FROM t OFFSET ? ROWS FETCH NEXT ? ROWS ONLY", ["n", "m"]) := by decide +kernel
  have named : ofBounds.write .empty { style := .colon } .oracle =
      (.ok "SELECT a FROM t OFFSET :m ROWS FETCH NEXT :n ROWS ONLY", ["n", "m"]) := by
    decide +kernel
  refine ⟨parsed_ofBounds, anonymous, named, ?_⟩
  rcases parsed_ofBounds.write_anonymous .empty {} .oracle with
    ⟨e, used, failed, -⟩ | ⟨t, used, first, second, perm, -⟩
  · exact nomatch anonymous.symm.trans failed
  · obtain ⟨text, rfl⟩ := Prod.mk.inj (anonymous.symm.trans first)
    exact ⟨t, perm, Except.ok.inj text,
      Except.ok.inj (Prod.mk.inj (named.symm.trans second)).1⟩

end Statement

end BoundSql
