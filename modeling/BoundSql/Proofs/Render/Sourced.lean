import BoundSql.Proofs.Binding.Constant
import BoundSql.Proofs.Grammar.Builds
import BoundSql.Proofs.Render.Rendered
import BoundSql.Proofs.Render.Tests
import BoundSql.Proofs.RoundTrip.DataType

/-!
# Statements made of words

Whatever texts a statement takes over from the text that it is read from are those of words, by
themselves or with points between them. What is written of it is tidy then, whether comparisons with
NULL became tests or not: `Statement.Parsed.tidy_body`. The exceptions are names of functions that
hold a system variable and a dollar sign, collations, and whatever a style writes for parameters.
-/

namespace BoundSql

open Parse Phrase Render RenderContext Token

/-- The name of a function, a type and an operator are taken from tokens with the property. EXISTS
is a function that is named by a keyword. -/
def Expr.SourcedHere (T : Token → Prop) : Expr → Prop
  | call function _ _ => Called T function ∨ function = "EXISTS"
  | operation op _ => op.Spelled T
  | cast _ type => type.Typed T
  | literal _ | name _ | param _ | subquery _ | cases _ _ _ | wildcard _ => True

/-- All that the expression takes over is taken from tokens with the property. -/
def Expr.Sourced (T : Token → Prop) (e : Expr) : Prop :=
  e.Everywhere (SourcedHere T) fun _ => True

/-- All that the query takes over is taken from tokens with the property. -/
def Query.Sourced (T : Token → Prop) (q : Query) : Prop :=
  q.Everywhere (Expr.SourcedHere T) fun _ => True

section Sourced

variable {T : Token → Prop}

theorem Grammar.builds_sourced :
    Builds T (Expr.Sourced T) (Expr.Sourced T) (Query.Sourced T) (Query.Sourced T) where
  literal _ := .leaf trivial rfl rfl
  name _ := .leaf trivial rfl rfl
  param _ := .leaf trivial rfl rfl
  wildcard _ := .leaf trivial rfl rfl
  deeper he := he
  call called hes := .intro (.inl called) hes (List.forall_mem_nil _)
  existence hq := .intro (.inr rfl) (List.forall_mem_singleton.2 (.intro trivial
    (List.forall_mem_nil _) (List.forall_mem_singleton.2 hq))) (List.forall_mem_nil _)
  subquery hq := .intro trivial (List.forall_mem_nil _) (List.forall_mem_singleton.2 hq)
  cast typed he := .intro typed (List.forall_mem_singleton.2 he) (List.forall_mem_nil _)
  cases _ hbase harms hotherwise := by
    refine .intro trivial ?_ (List.forall_mem_nil _)
    simp only [Expr.parts, List.forall_mem_append, Option.mem_toList, List.forall_mem_flatMap,
      List.forall_mem_cons, List.not_mem_nil, false_implies, implies_true, and_true]
    exact ⟨⟨hbase, harms⟩, hotherwise⟩
  signed _ spelled he := .intro spelled (List.forall_mem_singleton.2 he) (List.forall_mem_nil _)
  nullTest test hlhs := by
    refine .intro ?_ (List.forall_mem_singleton.2 hlhs) (List.forall_mem_nil _)
    rcases test with rfl | rfl <;> exact .of_plain rfl (by decide)
  negated _ he :=
    .intro (.of_plain rfl (by decide)) (List.forall_mem_singleton.2 he) (List.forall_mem_nil _)
  operation _ _ spelled hlhs hes :=
    .intro spelled (List.forall_mem_cons.2 ⟨hlhs, hes⟩) (List.forall_mem_nil _)
  membership member hlhs hq := by
    have query : Expr.Sourced T (.subquery _) :=
      .intro trivial (List.forall_mem_nil _) (List.forall_mem_singleton.2 hq)
    have operands := List.forall_mem_cons.2 ⟨hlhs, List.forall_mem_singleton.2 query⟩
    refine .intro ?_ operands (List.forall_mem_nil _)
    rcases member with rfl | rfl <;> exact .of_plain rfl (by decide)
  chained _ hes he := .intro hes.here
    (List.forall_mem_append.2 ⟨hes.parts, List.forall_mem_singleton.2 he⟩) (List.forall_mem_nil _)
  deeperQuery hq := hq
  select _ parts queries := .intro trivial parts queries
  compound _ hqs := .intro trivial (List.forall_mem_nil _) hqs
  bounded hq hb := by
    refine .intro trivial (parts_withBounds hq.parts hb) ?_
    rw [queries_withBounds]
    exact hq.queries

end Sourced

/-! ## Texts taken over are words -/

variable {d : Dialect}

theorem Named.isWrittenName {s : String} (h : Named (Token.Lawful d) s) :
    IsWrittenName d s.toList := by
  obtain ⟨t, lawful, calls⟩ := h
  have same : s = t.text := by
    cases calls with
    | identifier kind => exact lawful.text s kind
    | keyword => rfl
  rw [same, Token.text, String.toList_ofList]
  refine lawful.written ?_
  cases calls with
  | identifier kind => rw [← toWord_kind, kind]; rfl
  | keyword kind => rw [← toWord_kind, kind]; rfl

/-- The name of a function has no dollar sign if it holds a system variable. -/
def Expr.CallsApart : Expr → Prop
  | call function _ _ => ['@', '@'] <:+: function.toList → '$' ∉ function.toList
  | _ => True

instance : DecidablePred Expr.CallsApart
  | .call _ _ _ => inferInstanceAs (Decidable (_ → _))
  | .literal _ | .name _ | .param _ | .operation _ _ | .subquery _ | .cases _ _ _ | .cast _ _
  | .wildcard _ => inferInstanceAs (Decidable True)

/-- Names with points between them are words. -/
theorem Called.whole {function : String} (h : Called (Token.Lawful d) function)
    (apart : ['@', '@'] <:+: function.toList → '$' ∉ function.toList) : Whole d function := by
  obtain ⟨parts, named, rfl⟩ := h
  have text : (String.intercalate "." parts).toList = ['.'].intercalate (parts.map String.toList) :=
    String.toList_intercalate
  have written : ∀ cs ∈ parts.map String.toList, IsWrittenName d cs :=
    List.forall_mem_map.2 fun s hs => (named s hs).isWrittenName
  rw [text] at apart
  obtain ⟨-, ws, spells⟩ := (IsWrittenName.exists_spells_intercalate written).1
    fun cs hcs system cs' hcs' dollar =>
      apart (system.isInfix.trans (IsWrittenName.infix_intercalate hcs))
        ((IsWrittenName.infix_intercalate hcs').subset dollar)
  rw [← text] at spells
  exact spells.whole

theorem DataType.Typed.whole {type : DataType} (h : type.Typed (Token.Lawful d)) :
    Whole d type.sql := by
  cases h with
  | @ofParts t second args lawful opens isSecond =>
    obtain ⟨title, kept, sql, title_eq, -⟩ := exists_sql_ofParts (fullName t.text second) args
    have name : isNameKind t.kind := by
      rcases opens with ⟨_, kind⟩ | ⟨_, kind⟩ <;> rw [← toWord_kind, kind] <;> rfl
    have spells : ∃ ws, Spells d title.toList ws := by
      rcases title_eq with rfl | plain
      · exact ⟨_, spells_fullName (v := t.toWord) (lawful.spells name) isSecond⟩
      · exact ⟨_, (SpellsName.of_isPlainName plain).spells⟩
    obtain ⟨ws, spells⟩ := spells
    rw [sql]
    exact (spells_withArgs spells kept).whole
  | literal typed =>
    refine whole_sql fun name custom => ?_
    subst custom
    unfold Grammar.typedLiteral? at typed
    split at typed <;> cases typed

theorem Operator.Spelled.readIn {op : Operator} (h : op.Spelled (Token.Lawful d)) : op.ReadIn d := by
  refine ⟨fun isRegexp => ?_, fun isTilde => ?_⟩
  · obtain ⟨t, lawful, means⟩ := h.regexp isRegexp
    cases kind : t.kind with
    | punct p =>
      refine (lawful.tilde p kind).1 ?_
      rw [kind] at means
      revert isRegexp
      cases p <;> cases means <;> first | exact fun _ => rfl | nofun
    | keyword k =>
      rw [kind] at means
      cases k <;> cases means <;> cases isRegexp
    | _ =>
      rw [kind] at means
      cases means
  · obtain ⟨t, lawful, kind⟩ := h.tilde isTilde
    exact (lawful.tilde _ kind).2 rfl

section Lexable

variable {α : Type} {f : Word → α} {r : RenderContext}

/-- Whatever is written for a parameter is tidy, as far as `f` shows it. -/
def RenderContext.TidyParams (f : Word → α) (r : RenderContext) : Prop :=
  ∀ p used text, r.paramText p used = .ok text → Tidy f r.dialect [.text text]

/-- Values are words of their own. -/
theorem RenderContext.tidyParams_inline (inline : r.settings.style = .inline) : r.TidyParams f := by
  intro p used text given
  rw [paramText, inline] at given
  split at given
  · cases given
    exact .text (spells_keyword _ .NULL).whole
  · cases value : r.resolve p with
    | error e =>
      rw [value] at given
      cases given
    | ok v =>
      rw [value] at given
      have written : v.sql r.dialect r.settings.gmt = text := Except.ok.inj given
      rw [← written]
      exact .text (v.whole_sql _)

theorem Expr.SourcedHere.lexableAs {e : Expr} (sourced : e.SourcedHere (Token.Lawful r.dialect))
    (apart : e.CallsApart) (params : r.TidyParams f) : e.LexableAs f r := by
  cases e with
  | literal l => exact l.whole_sql
  | param p => exact params p
  | call function distinct args =>
    rcases sourced with called | rfl
    · exact called.whole apart
    · exact .of_isPlainName (by decide)
  | operation op operands => exact Operator.Spelled.readIn sourced
  | cast e type => exact DataType.Typed.whole sourced
  | name | subquery | cases | wildcard => exact trivial

/-- No sort key of the query has a collation. -/
def Query.Uncollated (q : Query) : Prop := ∀ o ∈ q.orderBy, o.collation = none

theorem Query.Uncollated.lexable {q : Query} (h : q.Uncollated) : q.Lexable r := by
  intro o ho c collation
  rw [h o ho] at collation
  cases collation

theorem Query.orderBy_mapped (g : Expr → Expr) (q : Query) :
    (q.mapped g).orderBy = q.orderBy.map (OrderItem.map (Expr.mapped g)) := by
  rw [mapped_eq_mapParts]
  cases q <;> rfl

/-- Tests for NULL take over nothing that was not there before. -/
theorem keptByTests_lexableAs {isNull : ParamRef → Bool} (params : r.TidyParams f) :
    KeptByTests isNull (Expr.LexableAs f r) (Query.Lexable r) where
  tested e h := by
    have test (op : Operator) (x : Expr) (noMatch : op.isRegexp = false) (noTilde : op ≠ .bitNot) :
        (Expr.operation op [x]).LexableAs f r := .of_plain noMatch noTilde _
    rcases Expr.testForNull_cases isNull e with same | ⟨_, a, b, x, -, -, same | same⟩
    · rwa [same]
    · rw [same]
      exact test .isNull x rfl (by decide)
    · rw [same]
      exact test .isNotNull x rfl (by decide)
  below e h := by cases e <;> exact h
  marked p _ := params _
  query q h := by
    intro o ho
    rw [Query.orderBy_mapped] at ho
    obtain ⟨o', ho', rfl⟩ := List.mem_map.1 ho
    exact h o' ho'

end Lexable

/-! ## Statements -/

/-- The tokens of a piece, of which there is at least one. -/
theorem Cursor.among_innerTokens {T : Token → Prop} {p : Piece}
    (h : ∀ t ∈ p.innerTokens d, T t) : (Cursor.ofTokens (p.innerTokens d)).Among T := by
  obtain ⟨front, last, ended, -⟩ := (Lexer.tiles (.ofText { dialect := d } p.text p.lead.pos)).ends
  have tokens : p.innerTokens d ≠ [] := by
    rw [Piece.innerTokens, ended]
    simp
  obtain ⟨t, ts, same⟩ := List.exists_cons_of_ne_nil tokens
  rw [same] at h ⊢
  exact h

namespace Body

variable {isNull : ParamRef → Bool} {b : Body}

theorem onConflict_testForNulls (isNull : ParamRef → Bool) (b : Body) :
    (b.testForNulls isNull).onConflict = b.onConflict := by
  cases b <;> rfl

theorem testForNulls_ne_verbatim (taken : ∀ parts, b ≠ .verbatim parts) (parts : List Fragment) :
    b.testForNulls isNull ≠ .verbatim parts := by
  cases b with
  | verbatim parts => exact absurd rfl (taken parts)
  | _ => nofun

end Body

namespace Statement

variable {s : ParseSettings} {delimiter text : List Char} {st : Statement} {α : Type}
  {f : Word → α} {r : RenderContext}

/-- The texts that writing a parsed statement takes over are words. -/
theorem Parsed.lexableAs (h : st.Parsed s delimiter text)
    (uncollated : st.body.EveryQuery Query.Uncollated) (apart : ∀ e ∈ st.body.exprs, e.CallsApart)
    (same : r.dialect = s.dialect) (params : r.TidyParams f) : st.body.LexableAs f r := by
  obtain ⟨-, p, -, -, read, -⟩ := h.exists_piece
  rcases Piece.ofTokens_of_body (Piece.read_eq_ok_iff.1 read).1 with ⟨parts, verbatim⟩ | taken
  · rw [verbatim]
    exact ⟨List.forall_mem_nil _, List.forall_mem_nil _⟩
  · have among : (Cursor.ofTokens (p.innerTokens s.dialect)).Among (Token.Lawful r.dialect) := by
      rw [same]
      exact Cursor.among_innerTokens fun t member => Lexer.lawful_of_mem_tokens rfl member
    have built := Body.builtOf_ofTokens (fun _ => Grammar.builds_sourced) among taken
    obtain ⟨apartParts, apartQueries⟩ := Body.everywhere_of_exprs apart
    have here (e : Expr)
        (sourced : (e.SourcedHere (Token.Lawful r.dialect) ∧ e.CallsApart) ∧ True) :
        e.LexableAs f r := sourced.1.1.lexableAs sourced.1.2 params
    have query (q : Query) (h : (True ∧ True) ∧ q.Uncollated) : q.Lexable r := h.2.lexable
    constructor
    · intro e he
      have both := everywhere_and.1 e (built.parts e he) (apartParts e he)
      exact (everywhere_and.1 e both (uncollated.1 e he)).mono here query
    · intro q hq
      have both := everywhere_and.2 q (built.queries q hq) (apartQueries q hq)
      exact (everywhere_and.2 q both (uncollated.2 q hq)).mono here query

/-- What is written of a parsed statement that is taken apart is tidy, whether comparisons with NULL
became tests or not. -/
theorem Parsed.tidy_body (h : st.Parsed s delimiter text)
    (uncollated : st.body.EveryQuery Query.Uncollated) (apart : ∀ e ∈ st.body.exprs, e.CallsApart)
    (taken : ∀ parts, st.body ≠ .verbatim parts) (same : r.dialect = s.dialect)
    (params : r.TidyParams f) {b : Body}
    (tested : b = st.body ∨ ∃ isNull, b = st.body.testForNulls isNull)
    {used used' : List String} {p : Phrase} (written : Gives (r.body b) used p used') :
    p.Tidy f r.dialect := by
  have lexable := h.lexableAs uncollated apart same params
  rcases tested with rfl | ⟨isNull, rfl⟩
  · exact RenderContext.tidy_body lexable h.quietConflict taken written
  · have kept : KeptByTests isNull (Expr.LexableAs f r) (Query.Lexable r) :=
      keptByTests_lexableAs params
    obtain ⟨parts, queries⟩ := kept.everywhere_testForNulls lexable.parts lexable.queries
    have conflict : Body.QuietConflict (st.body.testForNulls isNull).onConflict := by
      rw [Body.onConflict_testForNulls]
      exact h.quietConflict
    exact RenderContext.tidy_body ⟨parts, queries⟩ conflict (Body.testForNulls_ne_verbatim taken)
      written

end Statement

end BoundSql
