import BoundSql.Proofs.Binding.Numbered
import BoundSql.Proofs.Binding.Unbound
import BoundSql.Proofs.Render.Sourced
import BoundSql.Proofs.Token.Terminated
import Mathlib.Data.List.TakeWhile

/-!
# Layout

A statement is written as the same words whether each clause stands on a line of its own or not:
`Statement.Parsed.words_layout`. The layout only chooses between a line break and a blank, and that
falls between words in whatever is tidy. A bare placeholder is a word of its own, too, but its name
is a number that depends on the text in front of it: `Word.unnumbered` shows all of it but that, and
the numbers are the same again where all the rest is.
-/

namespace BoundSql

open Phrase Render Token

/-! ## Parameters -/

section Params

variable {d : Dialect} {r : RenderContext}

/-- A sign with a number behind it is a placeholder. -/
theorem spells_ordinal {sign : Char} (known : sign = '$' ∨ sign = '?') {digits : List Char}
    (number : IsDigits digits) :
    Spells d (sign :: digits) [⟨.hostParam (String.ofList digits), sign :: digits⟩] := by
  obtain ⟨first, others, same⟩ := List.exists_cons_of_ne_nil number.1
  have run {p : Char → Bool} (h : ∀ c ∈ digits, p c) : digits.takeWhile p = digits :=
    List.takeWhile_eq_self_iff.2 h
  have digit : (digits.head?.map Char.isDigit).getD false = true := by
    rw [same]
    exact number.2 first (same ▸ List.mem_cons_self)
  have host : scanHost 0 sign digits = (.hostParam (String.ofList digits), digits.length) := by
    have filled : digits.isEmpty = false := by rw [same]; rfl
    unfold scanHost
    simp [digit, run number.2, filled]
  have scanned : scan d.lexicon 0 sign digits = scanHost 0 sign digits := by
    rcases known with rfl | rfl
    · have noTag : scanDollar? digits = none := by
        have chars : digits.takeWhile Text.isWordChar = digits := run fun c hc =>
          isWordChar_of_isDigit (number.2 c hc)
        simp [scanDollar?, chars]
      have noName : startsName ['$'] = false := by decide
      simp [scan, commentLead, noTag, scanPlain, noName]
    · exact scan_questionMark d.lexicon_delimiter 0 digits
  refine spells_token (by rcases known with rfl | rfl <;> rfl) (fun more => ?_) (scanned.trans host)
    (by simp) (by simp [number.1])
  rcases known with rfl | rfl <;> simp [commentLead]

theorem whole_ordinal {sign : String} (known : sign = "$" ∨ sign = "?") (n : Nat) :
    Whole d (sign ++ toString n) := by
  have digits : (toString n).toList = Nat.toDigits 10 n := Nat.toList_repr
  have number : IsDigits (toString n).toList := digits ▸ isDigits_toDigits n
  rcases known with rfl | rfl
  · have spells := spells_ordinal (d := d) (.inl rfl) number
    have text : ("$" ++ toString n).toList = '$' :: (toString n).toList := String.toList_append
    rw [← text] at spells
    exact spells.whole
  · have spells := spells_ordinal (d := d) (.inr rfl) number
    have text : ("?" ++ toString n).toList = '?' :: (toString n).toList := String.toList_append
    rw [← text] at spells
    exact spells.whole

/-- A bare placeholder is a word of its own, whatever its number is. -/
theorem tidy_questionMark : Tidy Word.unnumbered d [.text "?"] := by
  have bare {cs : List Char} (h : Ends cs) :
      d.words ('?' :: cs) = Word.bare 1 :: d.lexicon.words 1 cs := by
    have scanned : scan d.lexicon 0 '?' ([] ++ cs) = ((Word.bare 1).kind, 0) :=
      scan_bare d.lexicon_delimiter h.endsName.startsDigit 0
    exact Lexicon.words_token rfl (fun more => by simp [commentLead]) scanned
  intro pretty rest hrest
  have alone : wordsIn d [.text "?"] = [Word.bare 1] :=
    (wordsIn_text d "?").trans ((bare ends_nil).trans (by rw [Lexicon.words_nil]))
  have here : d.words (write pretty [.text "?"] ++ rest) = _ := bare hrest
  rw [here, alone, List.map_cons, Lexicon.words_numbered d.lexicon_delimiter 1 0,
    Word.unnumbered_numbered]
  rfl

/-- Whatever is written for a parameter in place of it, or as a placeholder with a number or none, is
tidy. -/
theorem RenderContext.tidyParams
    (style : r.settings.style ∈ [ParamStyle.inline, .dollar, .qmark, .uqmark]) :
    r.TidyParams Word.unnumbered := by
  simp only [List.mem_cons, List.not_mem_nil, or_false] at style
  rcases style with inline | symbolic
  · exact tidyParams_inline inline
  intro p used text given
  cases marked : p.nullBound with
  | true =>
    rw [paramText, marked] at given
    cases given
    exact .text (spells_keyword _ .NULL).whole
  | false =>
    have ordinal {sigil : String} (numbered : r.settings.style.sigil? = some sigil)
        (known : sigil = "$" ∨ sigil = "?") : Tidy Word.unnumbered r.dialect [.text text] := by
      rw [paramText_numbered numbered marked] at given
      cases given
      exact .text (whole_ordinal known _)
    rcases symbolic with dollar | qmark | uqmark
    · exact ordinal (by rw [dollar]; rfl) (.inl rfl)
    · exact ordinal (by rw [qmark]; rfl) (.inr rfl)
    · rw [paramText, marked, uqmark] at given
      have written : "?" = text := Except.ok.inj given
      rw [← written]
      exact tidy_questionMark

end Params

/-! ## Phrases -/

/-- Where no bare placeholder differs but in its number, no word differs. -/
theorem Dialect.words_eq_of_unnumbered {d : Dialect} {cs ds : List Char}
    (same : (d.words cs).map Word.unnumbered = (d.words ds).map Word.unnumbered) :
    d.words cs = d.words ds := by
  have numbers (cs : List Char) :
      d.words cs = Word.numbered 0 ((d.words cs).map Word.unnumbered) := by
    rw [Word.numbered_unnumbered]
    exact Lexicon.words_numbered d.lexicon_delimiter 0 0 cs
  rw [numbers, same, ← numbers]

/-- A tidy phrase has the same words in each layout. -/
theorem Phrase.Tidy.words_write {d : Dialect} {p : Phrase} (h : p.Tidy Word.unnumbered d)
    (pretty pretty' : Bool) : d.words (p.write pretty) = d.words (p.write pretty') :=
  Dialect.words_eq_of_unnumbered ((h pretty).words_eq.trans (h pretty').words_eq.symm)

namespace RenderContext

variable {r : RenderContext} {used used' : List String} {p : Phrase}

/-- A statement that is kept as text has no layout. -/
theorem write_verbatim {parts : List Fragment}
    (written : Gives (r.body (.verbatim parts)) used p used') (pretty pretty' : Bool) :
    p.write pretty = p.write pretty' := by
  simp only [body, gives_bind, gives_pure] at written
  obtain ⟨ps, _, given, rfl, -⟩ := written
  have fixed : ∀ q ∈ ps, q.write pretty = q.write pretty' := by
    refine forall_of_gives_mapM (fun part _ used q used' h => ?_) given
    cases part with
    | text t =>
      obtain ⟨rfl, -⟩ := gives_pure.1 h
      rfl
    | param p =>
      simp only [fragment, RenderContext.param, gives_bind, gives_pure, gives_lift,
        gives_recorded] at h
      obtain ⟨_, _, _, text, _, -, _, _, _, rfl, -⟩ := h
      rfl
  clear given
  induction ps with
  | nil => rfl
  | cons q ps ih =>
    obtain ⟨here, others⟩ := List.forall_mem_cons.1 fixed
    rw [List.flatten_cons, write_append, write_append, here, ih others]

end RenderContext

/-! ## Statements -/

namespace Statement

variable {s : ParseSettings} {delimiter text : List Char} {st : Statement}

/-- What is written of a statement in each layout is one phrase, and so are the errors and the
parameters. -/
theorem write_layout (st : Statement) (values : Bindings) (settings : RenderSettings) (d : Dialect) :
    (∃ e used, ∀ pretty, st.write values { settings with pretty } d = (.error e, used)) ∨
      ∃ p used, Gives ((st.context values settings d).body st.body) [] p used ∧
        ∀ pretty, st.write values { settings with pretty } d =
          (.ok (String.ofList (p.write pretty)), used) := by
  have same (pretty : Bool) : (st.context values { settings with pretty } d).body st.body =
      (st.context values settings d).body st.body :=
    @RenderContext.body_congr (st.context values settings d) values pretty st.body fun _ _ _ => rfl
  have written (pretty : Bool) : st.write values { settings with pretty } d =
      (start ((st.context values settings d).body st.body)).map
        (Except.map fun p => String.ofList (p.write pretty)) id := by
    rw [← same pretty]
    rfl
  cases run : start ((st.context values settings d).body st.body) with
  | mk answer used =>
    cases answer with
    | error e => exact .inl ⟨e, used, fun pretty => by rw [written, run]; rfl⟩
    | ok p => exact .inr ⟨p, used, run, fun pretty => by rw [written, run]; rfl⟩

/-- The layout changes nothing but the gaps between words. With values in place of parameters, or
placeholders with numbers or none, a statement is refused in each layout with the same error, or
written as the same words, and the same parameters are reported; comparisons with NULL may have
become tests before. The statement has no collations, and no function whose name holds both a system
variable and a dollar sign. -/
theorem Parsed.words_layout (h : st.Parsed s delimiter text) (values : Bindings)
    {settings : RenderSettings}
    (style : settings.style ∈ [ParamStyle.inline, .dollar, .qmark, .uqmark])
    (uncollated : st.body.EveryQuery Query.Uncollated) (apart : ∀ e ∈ st.body.exprs, e.CallsApart)
    {u : Statement} (tested : u = st ∨ u = st.testForNulls values) :
    (∃ e used, u.write values { settings with pretty := false } s.dialect = (.error e, used) ∧
      u.write values { settings with pretty := true } s.dialect = (.error e, used)) ∨
    ∃ sql sql' used,
      u.write values { settings with pretty := false } s.dialect = (.ok sql, used) ∧
      u.write values { settings with pretty := true } s.dialect = (.ok sql', used) ∧
      s.dialect.allWords sql = s.dialect.allWords sql' := by
  rcases u.write_layout values settings s.dialect with ⟨e, used, failed⟩ | ⟨p, used, given, written⟩
  · exact .inl ⟨e, used, failed false, failed true⟩
  · refine .inr ⟨_, _, used, written false, written true, ?_⟩
    have words : s.dialect.words (p.write false) = s.dialect.words (p.write true) := by
      by_cases kept : ∃ parts, st.body = .verbatim parts
      · obtain ⟨parts, verbatim⟩ := kept
        have text : ∃ parts, u.body = .verbatim parts := by
          rcases tested with rfl | rfl
          · exact ⟨parts, verbatim⟩
          · rw [testForNulls, verbatim]
            exact ⟨_, rfl⟩
        obtain ⟨parts', verbatim'⟩ := text
        rw [verbatim'] at given
        rw [RenderContext.write_verbatim given false true]
      · have taken (parts) : st.body ≠ .verbatim parts := fun verbatim => kept ⟨parts, verbatim⟩
        have params : (st.context values settings s.dialect).TidyParams Word.unnumbered :=
          RenderContext.tidyParams style
        have context : u.context values settings s.dialect = st.context values settings s.dialect := by
          rcases tested with rfl | rfl <;> rfl
        have body : u.body = st.body ∨ ∃ isNull, u.body = st.body.testForNulls isNull :=
          tested.imp (congrArg Statement.body) fun same => ⟨_, congrArg Statement.body same⟩
        rw [context] at given
        exact (h.tidy_body uncollated apart taken rfl params body given).words_write false true
    rw [Dialect.allWords_ofList, Dialect.allWords_ofList, words]

/-- `SELECT lower(a) FROM t WHERE b = :p`. -/
def ofLower : Statement where
  sql := "SELECT lower(a) FROM t WHERE b = :p"
  body := .select { Select.ofColumns [⟨.call "lower" false [.name ⟨["a"]⟩], none⟩] with
    source := some ⟨[⟨.table ⟨["t"]⟩, none⟩], []⟩
    condition := some (.operation .eq [.name ⟨["b"]⟩, .param (.ofKey (.named "p"))]) }
  params := ⟨[⟨.named "p", none, none, false⟩], []⟩

theorem parsed_ofLower : ofLower.Parsed {} [] ofLower.sql.toList := by
  let ts : List Token :=
    [.onLine (.keyword .SELECT) "" "SELECT" 0, .onLine (.identifier "lower") " " "lower" 7,
      .onLine (.punct .leftParen) "" "(" 12, .onLine (.identifier "a") "" "a" 13,
      .onLine (.punct .rightParen) "" ")" 14, .onLine (.keyword .FROM) " " "FROM" 16,
      .onLine (.identifier "t") " " "t" 21, .onLine (.keyword .WHERE) " " "WHERE" 23,
      .onLine (.identifier "b") " " "b" 29, .onLine (.punct .eq) " " "=" 31,
      .onLine (.hostParam "p") " " ":p" 33]
  let p : Piece := .onLine ts 35
  have found : ((Script.ofText [] ofLower.sql.toList).settle .standard).piece {} = .ok p := by
    decide +kernel
  have inner : p.innerTokens .standard = ts ++ [p.terminator] := by decide +kernel
  exact parsed_of_piece found nofun inner rfl rfl rfl rfl rfl rfl

/-- In another layout the placeholder is the same word. -/
theorem Parsed.words_layout_lower :
    ofLower.Parsed {} [] ofLower.sql.toList ∧
      ofLower.write .empty { style := .uqmark } .standard =
        (.ok "SELECT lower(a) FROM t WHERE b = ?", ["p"]) ∧
      ofLower.write .empty { style := .uqmark, pretty := true } .standard =
        (.ok "SELECT lower(a)\nFROM t\nWHERE b = ?", ["p"]) ∧
      Dialect.standard.allWords "SELECT lower(a) FROM t WHERE b = ?" =
        Dialect.standard.allWords "SELECT lower(a)\nFROM t\nWHERE b = ?" := by
  have line : ofLower.write .empty { style := .uqmark } .standard =
      (.ok "SELECT lower(a) FROM t WHERE b = ?", ["p"]) := by decide +kernel
  have lines : ofLower.write .empty { style := .uqmark, pretty := true } .standard =
      (.ok "SELECT lower(a)\nFROM t\nWHERE b = ?", ["p"]) := by decide +kernel
  have uncollated : ofLower.body.EveryQuery Query.Uncollated := by
    refine ⟨List.forall_mem_nil _, List.forall_mem_singleton.2
      (.intro (List.forall_mem_nil _) ?_ (List.forall_mem_nil _))⟩
    refine List.forall_mem_cons.2 ⟨.intro trivial ?_ (List.forall_mem_nil _),
      List.forall_mem_singleton.2 (.intro trivial ?_ (List.forall_mem_nil _))⟩
    · exact List.forall_mem_singleton.2 (.leaf trivial rfl rfl)
    · exact List.forall_mem_cons.2
        ⟨.leaf trivial rfl rfl, List.forall_mem_singleton.2 (.leaf trivial rfl rfl)⟩
  have apart : ∀ e ∈ ofLower.body.exprs, e.CallsApart := by decide +kernel
  have style : RenderSettings.style { style := .uqmark } ∈
      [ParamStyle.inline, .dollar, .qmark, .uqmark] := by decide
  refine ⟨parsed_ofLower, line, lines, ?_⟩
  rcases parsed_ofLower.words_layout .empty style uncollated apart (.inl rfl) with
    ⟨e, used, failed, -⟩ | ⟨sql, sql', used, first, second, same⟩
  · exact nomatch line.symm.trans failed
  · cases line.symm.trans first
    cases lines.symm.trans second
    exact same

-- A dollar sign behind a system variable can open a string that reaches into the next clause, so that
-- the layout is part of the string.
example :
    (Dialect.postgresql.allWords "SELECT @@x.a$$(1) FROM t WHERE @@x.b$$(2) = 1").map Word.kind ≠
      (Dialect.postgresql.allWords "SELECT @@x.a$$(1)\nFROM t\nWHERE @@x.b$$(2) = 1").map
        Word.kind := by
  decide +kernel

end Statement

end BoundSql
