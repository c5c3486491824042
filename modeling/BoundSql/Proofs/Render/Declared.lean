import BoundSql.Proofs.Grammar.KeyMarking
import BoundSql.Proofs.Param.Notation
import BoundSql.Proofs.Render.Rendered
import BoundSql.Proofs.Tree.Order

/-!
# Placeholders are read back

A statement that is rendered with symbolic placeholders declares the parameters that it declared
before: the table of the rendering is that of the statement, as far as the notation says it,
`Parsed.params_render`. This needs entries that can be spelled in the notation, and that the texts
that are copied, of functions, collations and types, hold no placeholders.
-/

namespace BoundSql

open Phrase Token Worth

/-! ## Words -/

namespace Word

/-- What words declare, one after the other. -/
def declared (ws : List Word) : List ParamSpec := ws.filterMap (·.kind.declared?)

variable {w : Word}

theorem declared_append (ws vs : List Word) : declared (ws ++ vs) = declared ws ++ declared vs :=
  List.filterMap_append

theorem declared_cons_of_none (h : w.kind.declared? = none) (ws : List Word) :
    declared (w :: ws) = declared ws := List.filterMap_cons_none h

theorem declared_cons_of_some {s : ParamSpec} (h : w.kind.declared? = some s) (ws : List Word) :
    declared (w :: ws) = s :: declared ws := List.filterMap_cons_some h

theorem InRow.declared?_eq_none (h : w.InRow) : w.kind.declared? = none := by
  rcases h with ⟨cs, kind⟩ | ⟨cs, whole, kind⟩ | ⟨c, kind⟩ <;> rw [kind]
  · unfold word
    split <;> rfl
  · unfold number
    split
    · rfl
    · split <;> rfl
  · rfl

end Word

/-! ## Parameters in trees -/

/-- What is written of a key. -/
def RenderContext.noted (r : RenderContext) (key : ParamKey) : ParamSpec :=
  ((r.params.get? key).getD (.ofHost key.display)).noted r.settings.style

/-- The parameter has an entry that can be spelled. -/
def RenderContext.CanSpell (r : RenderContext) (p : ParamRef) : Prop :=
  p.nullBound = false ∧ ∃ s ∈ r.params.get? p.key, s.Readable r.settings.style

namespace Declared

open Word

/-- What is written of the parameters of a tree. -/
noncomputable def weights (r : RenderContext) : Weights (Exact ParamSpec) where
  name _ := 0
  function s := nothing (declared (r.dialect.words s.toList) = [])
  wildcard _ := 0
  assigned _ := 0
  collation s := nothing (declared (r.dialect.words s.toList) = [])
  type t := nothing (declared (r.dialect.words t.sql.toList) = [])
  param p := nothing (r.CanSpell p) + ↑(Exact.ofList [r.noted p.key])
  join _ := 0

variable {r : RenderContext}

theorem sum_zero (parts : List String) :
    (parts.map fun _ => (0 : WithTop (Exact ParamSpec))).sum = 0 := by
  simp

/-- What is to be written of keys. -/
theorem ofKeys (r : RenderContext) :
    (weights r).OfKeys fun keys => Exact.ofList (keys.map r.noted) where
  nil := le_rfl
  param_le p keys := by
    have here : Exact.ofList ((p.key :: keys).map r.noted) =
        Exact.ofList [r.noted p.key] + Exact.ofList (keys.map r.noted) := rfl
    change _ ≤ nothing (r.CanSpell p) + _ + _
    rw [here, WithTop.coe_add, add_assoc]
    exact le_add_of_nonneg_left (zero_le_nothing _)
  name _ := le_rfl
  names parts := (sum_zero parts).ge
  function _ := zero_le_nothing _
  wildcard _ := le_rfl
  assigned _ := le_rfl
  collation _ := zero_le_nothing _
  type _ := zero_le_nothing _
  join _ := le_rfl

/-- What is to be written of the placeholders of a text is written of its tree. -/
noncomputable def marking (r : RenderContext) : Marking (Exact ParamSpec) := (ofKeys r).marking

/-! ## Placeholders in written texts -/

/-- What words declare. -/
def declares (ws : List Word) : Exact ParamSpec := .ofList (declared ws)

theorem keeps {k : TokenKind} (h : k.declared? = none) : Keeps declares k := by
  rintro w ws rfl
  exact congrArg Exact.ofList (declared_cons_of_none h ws).symm

/-- A phrase without placeholders. -/
theorem tells_zero {d : Dialect} {p : Phrase} (h : ∀ w ∈ wordsIn d p, w.kind.declared? = none) :
    Tells declares d 0 p := by
  intro n hn ws
  obtain rfl : 0 = n := WithTop.coe_eq_coe.1 hn
  have none : declared (wordsIn d p) = [] := List.filterMap_eq_nil_iff.2 h
  rw [zero_add, declares, declares, declared_append, none]
  exact le_rfl

/-- A text that is known to be without placeholders. -/
theorem tells_nothing {d : Dialect} {s : String} :
    Tells declares d (nothing (declared (d.words s.toList) = [])) [.text s] := by
  intro n hn
  obtain ⟨none, rfl⟩ := of_nothing hn
  refine tells_zero (fun w hw => ?_) 0 rfl
  rw [wordsIn_text] at hw
  exact List.filterMap_eq_nil_iff.1 none w hw

theorem tells_name (s : String) : Tells declares r.dialect 0 [r.name s] :=
  tells_zero fun w hw => (r.inRow_name s w hw).declared?_eq_none

theorem tells_point : Tells declares r.dialect 0 [.text "."] := by
  refine tells_zero fun w hw => ?_
  rw [wordsIn_text, words_dot, List.mem_singleton] at hw
  rw [hw]
  rfl

theorem tells_dotted (parts : List String) : Tells declares r.dialect 0 (r.dotted parts) := by
  have all : Tells declares r.dialect (parts.map fun _ => 0).sum (r.dotted parts) := by
    refine .sepBy tells_point ?_
    rw [List.forall₂_map_right_iff, List.forall₂_same]
    exact fun s _ => tells_name s
  rwa [sum_zero] at all

theorem tells_keyword (k : Keyword) : Tells declares r.dialect 0 [.text k.spelling] := by
  refine tells_zero fun w hw => ?_
  rw [wordsIn_text, (spells_keyword _ k).words_eq, List.mem_singleton] at hw
  rw [hw]
  rfl

theorem tells_param {p : ParamRef} {used : List String} {text : String}
    (written : r.paramText p used = .ok text) :
    Tells declares r.dialect ((weights r).param p) [.text text] := by
  intro n hn ws
  obtain ⟨a, b, known, noted, rfl⟩ := WithTop.add_eq_coe.1 hn
  obtain ⟨⟨bound, s, entry, readable⟩, rfl⟩ := of_nothing known.symm
  obtain rfl := WithTop.coe_eq_coe.1 noted
  obtain ⟨w, spells, kind⟩ := RenderContext.spells_paramText entry bound readable written
  have said : r.noted p.key = s.noted r.settings.style := by
    rw [RenderContext.noted, Option.mem_def.1 entry, Option.getD_some]
  rw [zero_add, wordsIn_text, spells.words_eq, said]
  exact congrArg Exact.ofList (declared_cons_of_some kind ws).symm

/-- What is written of the parameters of a tree is declared in its text. -/
noncomputable def writing (r : RenderContext) : Writing (Exact ParamSpec) r where
  toWeights := weights r
  marks := declares
  keep_keyword k _ := keeps rfl
  keep_punct p _ _ := keeps rfl
  keep_literal k l literal := keeps (by cases k <;> first | rfl | cases literal)
  keep_name cs _ _ ws := keeps (Word.InRow.declared?_eq_none (.inl ⟨cs, rfl⟩)) (.ofName cs) ws rfl
  tells_name s := tells_name s
  tells_names parts := by
    have none : (weights r).names parts = 0 := sum_zero parts
    rw [none]
    exact tells_dotted parts
  tells_wildcard t := by
    have star : Tells declares r.dialect 0 [.text "*"] := by
      refine tells_zero fun w hw => ?_
      rw [wordsIn_text, spells_star.words_eq, List.mem_singleton] at hw
      rw [hw]
      rfl
    exact (tells_dotted _).behind (tells_point.behind star)
  tells_label s := (tells_keyword .AS).behind (tells_name s).blank
  tells_assigned s := tells_name s
  tells_collation s := tells_nothing
  tells_param p used text written := tells_param written
  tells_join k := .words_join tells_keyword k
  function_le s n known ws := by
    obtain ⟨none, rfl⟩ := of_nothing known
    rw [zero_add, declares, declares, declared_append, none]
    exact le_rfl
  exists_le s n _ known := (of_nothing known).2.le
  type_le t n known ws := by
    obtain ⟨none, rfl⟩ := of_nothing known
    have as : declared (.key .AS :: (r.dialect.words t.sql.toList ++ .sign .rightParen ")" :: ws)) =
        declared (r.dialect.words t.sql.toList ++ .sign .rightParen ")" :: ws) :=
      declared_cons_of_none rfl _
    rw [zero_add, declares, declares, as, declared_append, none]
    exact le_rfl

end Declared

/-- Every parameter has an entry that can be spelled in the notation that is used; no text that is
written as it is, of a function, a collation or a type, holds a placeholder; and no parameters stand
both in the LIMIT and in the OFFSET of a query. -/
def Body.ParamsApart (r : RenderContext) (b : Body) : Prop := b.worth (Declared.weights r) ≠ ⊤

/-- Legible keys stay different in every notation. -/
theorem ParamSpec.key_eq_of_noted {a b : ParamSpec} {style : ParamStyle} (ha : a.key.Legible)
    (hb : b.key.Legible) (h : (a.noted style).key = (b.noted style).key) : a.key = b.key := by
  cases style
  case colon => exact ha.eq_of_display hb (ParamKey.named.inj h)
  all_goals exact h

namespace Statement

variable {s : ParseSettings} {delimiter text : List Char} {st : Statement}

/-- What is written of a key that the statement declares. -/
theorem Parsed.noted_eq (h : st.Parsed s delimiter text) (values : Bindings)
    (settings : RenderSettings) (d : Dialect) {key : ParamKey}
    (declared : key ∈ (st.declarations s.dialect).map ParamSpec.key) :
    (st.context values settings d).noted key =
      (ParamSpec.declared (st.declarations s.dialect) key).noted settings.style := by
  have entry : st.params.get? key = _ := h.params_eq ▸ ParamTable.get?_ofSpecs _ key
  rw [if_pos declared] at entry
  change ((st.params.get? key).getD _).noted settings.style = _
  rw [entry, Option.getD_some]

/-- The keys that the words of a statement declare. -/
theorem keys_allWords (st : Statement) (d : Dialect) :
    Word.keys (d.allWords st.sql) = (st.declarations d).map ParamSpec.key := by
  rw [Word.keys, Dialect.allWords, List.filterMap_map, declarations, ParamSpec.map_key_ofToken?]
  rfl

/-- Writing each key once for each time that the statement declares it gives the table of the
statement, as far as the notation says it. -/
theorem Parsed.ofSpecs_noted (h : st.Parsed s delimiter text) (values : Bindings)
    (settings : RenderSettings) (d : Dialect) :
    ParamTable.ofSpecs (((st.declarations s.dialect).map ParamSpec.key).map
        (st.context values settings d).noted) =
      ⟨st.params.specs.map (·.noted settings.style), []⟩ := by
  have legible (key) (hkey : key ∈ (st.declarations s.dialect).map ParamSpec.key) : key.Legible := by
    obtain ⟨spec, member, rfl⟩ := List.mem_map.1 hkey
    exact Lexer.legible_tokens member
  have noted (key) (hkey : key ∈ (st.declarations s.dialect).map ParamSpec.key) :=
    h.noted_eq values settings d hkey
  have specs : st.params.specs = _ := h.params_eq ▸ ParamTable.specs_ofSpecs _
  generalize st.declarations s.dialect = decls at legible noted specs ⊢
  rw [ParamTable.ofSpecs_map, specs, List.map_map]
  · refine congrArg (ParamTable.mk · []) (List.map_congr_left fun key hkey => ?_)
    exact noted key (List.mem_eraseDups.1 hkey)
  · intro k hk l hl same
    rw [noted k hk, noted l hl] at same
    exact ParamSpec.key_eq_of_noted (a := .declared decls k) (b := .declared decls l) (legible k hk)
      (legible l hl) same

/-- For whatever dialect a statement is rendered with symbolic placeholders, the table of its
rendering, and so of any statement that is read with this text, is that of the statement as far as
the notation says it: the same keys in the same order with the same types, each open to NULL if it
was, and without clashes. -/
theorem Parsed.params_render (h : st.Parsed s delimiter text) {values : Bindings}
    {settings : RenderSettings} {d : Dialect}
    (notNull : ∀ p ∈ st.body.params, p.holdsNull st.params values = false)
    (lexable : st.body.Lexable (st.context values settings d))
    (apart : st.body.ParamsApart (st.context values settings d))
    {sql : String} (written : st.render values settings d = .ok sql) :
    ParamTable.ofTokens (Lexer.ofText d.lexicon sql.toList).tokens =
        ⟨st.params.specs.map (·.noted settings.style), []⟩ ∧
      ∀ (s' : ParseSettings) (delimiter' text' : List Char) (st' : Statement),
        st'.Parsed s' delimiter' text' → s'.dialect = d → st'.sql = sql →
          st'.params = ⟨st.params.specs.map (·.noted settings.style), []⟩ := by
  obtain ⟨n, known⟩ := WithTop.ne_top_iff_exists.1 apart
  obtain ⟨source, output⟩ := h.marks_le_render (Declared.marking _) (Declared.writing _) rfl notNull
    lexable known.symm written
  have declared : Word.declared (d.allWords sql) =
      (Word.keys (s.dialect.allWords st.sql)).map (st.context values settings d).noted :=
    ((Eq.trans source (add_zero n).symm).trans output).symm
  have specs : (Lexer.ofText d.lexicon sql.toList).tokens.filterMap ParamSpec.ofToken? =
      Word.declared (d.allWords sql) := by
    rw [Word.declared, Dialect.allWords, List.filterMap_map]
    rfl
  have table : ParamTable.ofTokens (Lexer.ofText d.lexicon sql.toList).tokens =
      ⟨st.params.specs.map (·.noted settings.style), []⟩ := by
    rw [ParamTable.ofTokens, specs, declared, keys_allWords]
    exact h.ofSpecs_noted values settings d
  refine ⟨table, ?_⟩
  rintro s' delimiter' text' st' read rfl rfl
  rw [read.params_eq, ← table]
  rfl

/-- `SELECT ##a::int::NULL, :b`. -/
def ofPlaceholders : Statement where
  sql := "SELECT ##a::int::NULL, :b"
  body := .select (Select.ofColumns
    [⟨.param (.ofKey (.named "a")), none⟩, ⟨.param (.ofKey (.named "b")), none⟩])
  params := ⟨[⟨.named "a", none, some "int", true⟩, ⟨.named "b", none, none, false⟩], []⟩

theorem parsed_ofPlaceholders : ofPlaceholders.Parsed {} [] ofPlaceholders.sql.toList := by
  let ts : List Token :=
    [.onLine (.keyword .SELECT) "" "SELECT" 0,
      .onLine (.param ⟨.named "a", some "int", none, true, false⟩) " " "##a::int::NULL" 7,
      .onLine (.punct .comma) "" "," 21, .onLine (.hostParam "b") " " ":b" 23]
  let p : Piece := .onLine ts 25
  have found : ((Script.ofText [] ofPlaceholders.sql.toList).settle .standard).piece {} = .ok p := by
    decide +kernel
  have inner : p.innerTokens .standard = ts ++ [p.terminator] := by decide +kernel
  exact parsed_of_piece found nofun inner rfl rfl rfl rfl rfl rfl

/-- What can be spelled is whole. -/
theorem whole_of_canSpell {r : RenderContext} {p : ParamRef} (h : r.CanSpell p) :
    (Expr.param p).Lexable r := by
  obtain ⟨bound, spec, entry, readable⟩ := h
  intro used text written
  obtain ⟨w, spells, -⟩ := RenderContext.spells_paramText entry bound readable written
  exact spells.whole

theorem Parsed.params_render_long :
    ofPlaceholders.Parsed {} [] ofPlaceholders.sql.toList ∧
      (∀ p ∈ ofPlaceholders.body.params, p.holdsNull ofPlaceholders.params .empty = false) ∧
      ofPlaceholders.body.Lexable (ofPlaceholders.context .empty { style := .long } .standard) ∧
      ofPlaceholders.body.ParamsApart (ofPlaceholders.context .empty { style := .long } .standard) ∧
      ofPlaceholders.render .empty { style := .long } .standard =
        .ok "SELECT ## /* name:\"a\" type:int nullok:true */, ## /* name:\"b\" */" ∧
      ParamTable.ofTokens (Lexer.ofText Dialect.standard.lexicon
        "SELECT ## /* name:\"a\" type:int nullok:true */, ## /* name:\"b\" */".toList).tokens =
          ofPlaceholders.params := by
  have params : ofPlaceholders.body.params = [.ofKey (.named "a"), .ofKey (.named "b")] := by rfl
  have notNull : ∀ p ∈ ofPlaceholders.body.params,
      p.holdsNull ofPlaceholders.params .empty = false := by
    rw [params]
    decide +kernel
  have readable : ∀ s ∈ ofPlaceholders.params.specs, s.LongReadable := by
    have known : ∀ s ∈ ofPlaceholders.params.specs, ParamKey.read s.name.toList = s.key ∧
        s.name.toList ≠ [] ∧
        (∀ t ∈ s.typeName, t.toList ≠ [] ∧ (∀ c ∈ t.toList, Text.isBlank c = false) ∧
          t.toList.head? ≠ some '"') ∧
        Placeholder.IsContent (Placeholder.Attribute.textOf s.attributes ++ [' ']) := by
      decide +kernel
    intro s hs
    obtain ⟨legible, nonempty, type, content⟩ := known s hs
    exact ⟨legible, nonempty, type, content⟩
  have spells : ∀ p ∈ ofPlaceholders.body.params,
      (ofPlaceholders.context .empty { style := .long } .standard).CanSpell p := by
    rw [params]
    refine List.forall_mem_cons.2 ⟨⟨rfl, _, rfl, readable _ ?_⟩, List.forall_mem_singleton.2
      ⟨rfl, _, rfl, readable _ ?_⟩⟩
    · exact List.mem_cons_self
    · exact List.mem_cons_of_mem _ List.mem_cons_self
  have lexable :
      ofPlaceholders.body.Lexable (ofPlaceholders.context .empty { style := .long } .standard) := by
    refine ⟨nofun, fun q hq => ?_⟩
    rw [List.mem_singleton.1 hq]
    refine .intro nofun (fun x hx => ?_) nofun
    rw [params] at spells
    rcases List.mem_cons.1 hx with rfl | hx
    · exact .intro (whole_of_canSpell (spells _ List.mem_cons_self)) nofun nofun
    · rw [List.mem_singleton.1 hx]
      exact .intro (whole_of_canSpell (spells _ (List.mem_cons_of_mem _ List.mem_cons_self))) nofun
        nofun
  have apart : ofPlaceholders.body.ParamsApart
      (ofPlaceholders.context .empty { style := .long } .standard) := by
    rw [params] at spells
    unfold Body.ParamsApart
    generalize ofPlaceholders.context .empty { style := .long } .standard = r at spells ⊢
    have known (p : ParamRef) (hp : r.CanSpell p) : (Declared.weights r).param p ≠ ⊤ := by
      change nothing _ + _ ≠ ⊤
      rw [nothing_eq_zero hp, zero_add]
      exact WithTop.coe_ne_top
    simp [ofPlaceholders, Select.ofColumns, Body.worth, Select.worth, Column.worthAll, Expr.worth,
      Expr.worthOption, Expr.worthAll, OrderItem.worthAll, FromClause.worthOption, Worth.either, known,
      spells]
  have written : ofPlaceholders.render .empty { style := .long } .standard =
      .ok "SELECT ## /* name:\"a\" type:int nullok:true */, ## /* name:\"b\" */" := by
    decide +kernel
  exact ⟨parsed_ofPlaceholders, notNull, lexable, apart, written,
    (parsed_ofPlaceholders.params_render notNull lexable apart written).1⟩

end Statement

end BoundSql
