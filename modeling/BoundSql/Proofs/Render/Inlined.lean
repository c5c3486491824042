import BoundSql.Proofs.Render.Verbatim
import BoundSql.Proofs.Script.Sites
import BoundSql.Proofs.Token.Comparison
import BoundSql.Proofs.Token.Seam

/-!
# Values in a statement that is kept as text

A value that is written in place of a parameter stands right behind the text in front of it and right
in front of the text behind it, with nothing between them. Where no two neighbours make one token or
a comment, each value is read as its own tokens and every other token stays:
`Statement.Parsed.words_inlined`.
-/

namespace BoundSql

open Text Token Render

namespace Value

variable {d : Dialect} {v : Value} {cs rest : List Char}

/-- The value is an integer or a text. -/
inductive Plain : Value → Prop
  | int (n : Int64) : Plain (int n)
  | text (t : String) : Plain (text t)

/-- The time zone makes no difference. -/
theorem Plain.sql_eq (h : v.Plain) (d : Dialect) (gmt : Bool) : v.sql d gmt = v.sql d false := by
  cases h <;> rfl

/-- A value begins with a digit, a minus sign or a quote. -/
theorem Plain.opens (h : v.Plain) (d : Dialect) :
    ∃ x r, (v.sql d false).toList = x :: r ∧ opensValue x := by
  cases h with
  | text t => exact ⟨'\'', _, toList_quoteString d t, rfl⟩
  | int n =>
    rcases Int.lt_or_le n.toInt 0 with negative | positive
    · exact ⟨'-', _, toList_toString_of_neg negative, rfl⟩
    · obtain ⟨k, text⟩ := toList_toString_of_le positive
      obtain ⟨c, tail, digits⟩ := List.exists_cons_of_ne_nil (isDigits_toDigits k).1
      have digit : c.isDigit := (isDigits_toDigits k).2 c (digits ▸ List.mem_cons_self)
      exact ⟨c, tail, text.trans digits, by simp [opensValue, digit]⟩

/-- A row of digits is a number, and runs on where the number does. -/
theorem runsOn_digits (h : IsDigits cs) : runsOn (number cs true) cs rest = numberGoesOn cs rest := by
  rcases number_cases cs true with ⟨n, kind⟩ | ⟨x, kind⟩ | ⟨e, kind⟩
  · rw [kind]
    rfl
  · rw [kind]
    rfl
  · obtain ⟨x, read⟩ := (IsDecimal.whole h).ofDigits?
    unfold number at kind
    rw [read] at kind
    split at kind <;> cases kind

/-- Digits are one token in front of what does not go on with them. -/
theorem words_digits (h : IsDigits cs) (apart : runsOn (number cs true) cs rest = false) (n : Nat) :
    d.lexicon.words n (cs ++ rest) = ⟨number cs true, cs⟩ :: d.lexicon.words n rest := by
  obtain ⟨c, tail, rfl⟩ := List.exists_cons_of_ne_nil h.1
  have digit : c.isDigit := h.2 c List.mem_cons_self
  have all : (c :: tail).all Char.isDigit = true := List.all_eq_true.2 h.2
  have alone : scanNumber (c :: (tail ++ [])) = (number (c :: tail) true, tail.length) := by
    rw [List.append_nil, (IsDecimal.whole h).scanNumber, all]
    rfl
  have scanned : scan d.lexicon n c (tail ++ rest) = (number (c :: tail) true, tail.length) := by
    rw [scan_of_isDigit d.lexicon_delimiter digit,
      scanNumber_beside (.inl digit) (by rw [alone]) (runsOn_digits h ▸ apart), alone]
  have noComment (more : Nat) : commentLead d.lexicon.dialect.hashComments (c :: (tail ++ rest)) ≠
      .comment more := by
    rw [commentLead_of_isDigit digit]
    simp
  have noMark : c :: tail ≠ ['?'] := by
    intro bare
    exact ne_of_class digit (k := '?') rfl (List.cons.inj bare).1
  rw [List.cons_append, Lexicon.words_token (isBlank_of_isDigit digit) noComment scanned,
    Lexicon.countBare, if_neg noMark]

/-- An integer or a text is read as its own tokens in front of any text, unless the last of them runs
on there. -/
theorem Plain.words_append (h : v.Plain) (apart : ∀ w ∈ (d.words (v.sql d false).toList).getLast?,
      runsOn w.kind w.lexeme rest = false) (n : Nat) :
    d.lexicon.words n ((v.sql d false).toList ++ rest) =
      d.words (v.sql d false).toList ++ d.lexicon.words n rest := by
  cases h with
  | text t =>
    have alone : d.words (quoteString d t).toList = [⟨.string t, (quoteString d t).toList⟩] :=
      (spells_string d t).words_eq
    have apart : runsOn (.string t) (quoteString d t).toList rest = false :=
      apart ⟨.string t, (quoteString d t).toList⟩ (by rw [sql, alone]; rfl)
    have noQuote : rest.head? ≠ some '\'' := by
      simpa [runsOn_string, toList_quoteString] using apart
    obtain ⟨body, spelled, scanned⟩ := scan_quoteString d n t noQuote
    have noComment (more : Nat) : commentLead d.lexicon.dialect.hashComments
        ('\'' :: (body ++ rest)) ≠ .comment more := by simp [commentLead]
    rw [sql, alone, spelled, List.cons_append, Lexicon.words_token rfl noComment scanned,
      Lexicon.countBare, if_neg (by simp)]
    rfl
  | int m =>
    rcases Int.lt_or_le m.toInt 0 with negative | positive
    · have digits := isDigits_toDigits m.toInt.natAbs
      have alone := (spells_integer_of_neg (d := d) negative).words_eq
      have noMinus (more : List Char) :
          (Nat.toDigits 10 m.toInt.natAbs ++ more).head? ≠ some '-' := by
        obtain ⟨c, tail, spelled⟩ := List.exists_cons_of_ne_nil digits.1
        have digit : c.isDigit := digits.2 c (spelled ▸ List.mem_cons_self)
        rw [spelled]
        simpa using ne_of_class digit (k := '-') rfl
      rw [sql, alone] at apart ⊢
      rw [toList_toString_of_neg negative, List.cons_append, Dialect.words_minus (noMinus rest),
        words_digits digits (apart _ rfl)]
      rfl
    · obtain ⟨k, text⟩ := toList_toString_of_le positive
      have digits := isDigits_toDigits k
      have alone := (IsDecimal.whole digits).spells (d := d)
      rw [List.all_eq_true.2 digits.2] at alone
      rw [sql, text, alone.words_eq] at apart ⊢
      rw [words_digits digits (apart _ rfl)]
      rfl

end Value

namespace Bindings

/-- The value that is bound to the name of a parameter. -/
def value (b : Bindings) (p : ParamRef) : Value := (b.get? p.key.display).getD .null

end Bindings

/-! ## The words of sites -/

namespace Site

/-- The words of the site, its parameter being written as its value. -/
def words (d : Dialect) (value : ParamRef → Value) : Site → List Word
  | kept t => [t.toWord]
  | param _ p => d.words ((value p).sql d false).toList

/-- No site runs on in the text of those behind it. -/
def Apart (d : Dialect) (value : ParamRef → Value) : List Site → Prop
  | [] => True
  | site :: sites => (∀ w ∈ (site.words d value).getLast?,
      runsOn w.kind w.lexeme (text d value sites) = false) ∧ Apart d value sites

instance decidableApart (d : Dialect) (value : ParamRef → Value) :
    (sites : List Site) → Decidable (Apart d value sites)
  | [] => .isTrue trivial
  | _ :: sites =>
    have := decidableApart d value sites
    inferInstanceAs (Decidable (_ ∧ _))

variable {d : Dialect} {value : ParamRef → Value} {site : Site} {sites : List Site}

/-- The text of sites begins like that of their tokens, unless a value stands there. -/
theorem besideValue_text (plain : ∀ p ∈ sites.filterMap ref?, (value p).Plain) :
    BesideValue ((sites.flatMap tokens).flatMap source) (text d value sites) := by
  induction sites with
  | nil => exact .inl rfl
  | cons site sites ih =>
    rw [text_cons, List.flatMap_cons, List.flatMap_append]
    cases site with
    | kept t =>
      have same : (tokens (kept t)).flatMap source = gap (kept t) ++ written d value (kept t) :=
        List.flatMap_singleton _ _
      rw [same]
      cases spelled : gap (kept t) ++ written d value (kept t) with
      | nil => exact ih plain
      | cons c cs => exact .inl rfl
    | param c p =>
      rw [tokens, Cutout.flatMap_source_tokens, gap, written, List.append_assoc, List.append_assoc]
      cases gap : c.first.gap with
      | cons d cs => exact .inl rfl
      | nil =>
        obtain ⟨x, r, spelled, opens⟩ := (plain p List.mem_cons_self).opens d
        exact .inr ⟨x, _, by rw [spelled]; rfl, opens⟩

/-- The tokens of a parameter are a placeholder and a constant, and no end of the input. -/
theorem Fits.ne_eof {c : Cutout} {p : ParamRef} (h : (param c p).Fits) :
    ∀ t ∈ c.tokens, t.kind ≠ .eof := by
  obtain ⟨key, default, -⟩ : c.StandsFor p := h
  intro t member kind
  rcases List.mem_append.1 member with constant | placeholder
  · rw [Option.mem_toList.1 constant, Option.map_some, kind] at default
    cases literal : p.default with
    | none =>
      rw [literal] at default
      cases default
    | some l =>
      rw [literal] at default
      cases default
  · rw [← List.mem_singleton.1 placeholder, kind] at key
    cases key

theorem tokens_ne_nil : site.tokens ≠ [] := by
  cases site <;> simp [tokens, Cutout.tokens]

/-- Sites with the end of the input are the last one. -/
theorem words_eof {l : Lexer} {ts : List Token} {t : Token} (value : ParamRef → Value)
    (hlx : l.lexicon = d.lexicon)
    (h : l.tokens = ts ++ t :: sites.flatMap tokens) (kind : t.kind = .eof) (n : Nat) :
    sites = [] ∧ d.lexicon.words n (text d value [kept t]) ++ [Word.eof] = [t.toWord] := by
  obtain ⟨inner, last, split, ended, empty, -⟩ := l.tiles.ends
  have alone : sites.flatMap tokens = [] := by
    cases behind : sites.flatMap tokens with
    | nil => rfl
    | cons u more =>
      have inside : l.tokens = (ts ++ [t]) ++ u :: more := by rw [h, behind]; simp
      exact absurd kind (Lexer.ne_eof_of_tokens inside (by simp))
  have nothing : sites = [] := by
    cases sites with
    | nil => rfl
    | cons site sites => exact absurd (List.append_eq_nil_iff.1 alone).1 tokens_ne_nil
  have tiles := l.tiles
  rw [h, alone] at tiles
  have gap := tiles.behind.head.2
  rw [alone] at h
  obtain ⟨-, same⟩ := List.append_inj' (split.symm.trans h) rfl
  obtain rfl : last = t := (List.cons.inj same).1
  have word : last.toWord = Word.eof := by rw [Token.toWord, ended, empty]; rfl
  rw [empty, hlx] at gap
  replace gap : Gap d.lexicon.dialect.hashComments last.gap [] := gap
  refine ⟨nothing, ?_⟩
  rw [text_cons, Site.gap, written, empty, List.append_nil,
    show text d value [] = [] from rfl, Lexicon.words_gap n gap, Lexicon.words_nil, word]
  rfl

/-- A token that is kept is read again in front of the text of the sites behind it. -/
theorem words_kept {l : Lexer} {ts : List Token} {t : Token} (hlx : l.lexicon = d.lexicon)
    (h : l.tokens = ts ++ t :: sites.flatMap tokens) (kind : t.kind ≠ .eof)
    (sound : ∀ e, t.kind ≠ .error e) (fits : (kept t).Fits)
    (plain : ∀ p ∈ sites.filterMap ref?, (value p).Plain)
    (apart : runsOn t.kind t.lexeme (text d value sites) = false) (n : Nat) :
    d.lexicon.words n (text d value (kept t :: sites)) =
      t.toWord :: d.lexicon.words n (text d value sites) := by
  have usual : l.lexicon.delimiter = [] := by rw [hlx]; rfl
  obtain ⟨k, c, cs, lexeme, solid, lead, scanned⟩ := Lexer.scan_of_tokens usual h kind sound
  have key : t.kind.key? = none := by simpa [Fits, Token.isPlaceholder] using fits
  rw [hlx] at lead scanned
  rw [lexeme] at apart
  obtain ⟨lead', scanned'⟩ := scan_beside d.lexicon_delimiter (besideValue_text plain) lead sound key
    apart scanned
  have noMark : c ≠ '?' := ne_of_no_key d.lexicon_delimiter (by rw [scanned]; exact key)
  have gap := (Lexer.gap_of_tokens h kind).2 (c :: (cs ++ text d value sites))
  rw [hlx] at gap
  have same : Lexicon.countBare n (c :: cs) = n :=
    if_neg fun bare => noMark (List.cons.inj bare).1
  rw [text_cons, Site.gap, written, lexeme, List.append_assoc, List.cons_append,
    Lexicon.words_gap n gap, Lexicon.words_token solid lead' ((scan_ordinal noMark k).trans scanned'),
    same, Token.toWord, lexeme]

/-- A value in place of a parameter is read as its own words in front of the text of the sites behind
it. -/
theorem words_param {l : Lexer} {ts : List Token} {c : Cutout} {p : ParamRef}
    (hlx : l.lexicon = d.lexicon) (h : l.tokens = ts ++ (param c p :: sites).flatMap tokens)
    (kind : c.first.kind ≠ .eof) (plain : (value p).Plain)
    (apart : Apart d value (param c p :: sites)) (n : Nat) :
    d.lexicon.words n (text d value (param c p :: sites)) =
      words d value (param c p) ++ d.lexicon.words n (text d value sites) := by
  obtain ⟨more, first⟩ := c.tokens_eq
  rw [List.flatMap_cons, tokens, first, List.cons_append] at h
  have gap := (Lexer.gap_of_tokens h kind).2
    (((value p).sql d false).toList ++ text d value sites)
  rw [hlx] at gap
  rw [text_cons, Site.gap, written, List.append_assoc, Lexicon.words_gap n gap,
    plain.words_append apart.1, words]

/-- The text of sites is read as the words of the sites, if none runs on in the text behind it. -/
theorem words_text {l : Lexer} {ts : List Token} (hlx : l.lexicon = d.lexicon)
    (h : l.tokens = ts ++ sites.flatMap tokens) (front : ∀ t ∈ ts, t.kind ≠ .eof)
    (sound : ∀ t ∈ l.tokens, ∀ e, t.kind ≠ .error e) (fits : ∀ site ∈ sites, site.Fits)
    (plain : ∀ p ∈ sites.filterMap ref?, (value p).Plain) (apart : Apart d value sites) (n : Nat) :
    d.lexicon.words n (text d value sites) ++ [Word.eof] = sites.flatMap (words d value) := by
  induction sites generalizing ts n with
  | nil =>
    obtain ⟨inner, eof, split, ended, -⟩ := l.tiles.ends
    rw [List.flatMap_nil, List.append_nil] at h
    exact absurd ended (front eof (by rw [← h, split]; simp))
  | cons site sites ih =>
    have fits' : ∀ site ∈ sites, site.Fits := fun u hu => fits u (List.mem_cons_of_mem site hu)
    cases site with
    | kept t =>
      have h' : l.tokens = ts ++ t :: sites.flatMap tokens := h
      by_cases kind : t.kind = .eof
      · obtain ⟨rfl, read⟩ := words_eof value hlx h' kind n
        exact read
      · have behind : l.tokens = (ts ++ [t]) ++ sites.flatMap tokens := by simpa using h'
        have front' : ∀ u ∈ ts ++ [t], u.kind ≠ .eof :=
          List.forall_mem_append.2 ⟨front, List.forall_mem_singleton.2 kind⟩
        have member : t ∈ l.tokens := by rw [h']; simp
        rw [words_kept hlx h' kind (sound t member) (fits _ List.mem_cons_self) plain
          (apart.1 t.toWord rfl), List.cons_append, ih behind front' fits' plain apart.2]
        rfl
    | param c p =>
      have inside := (fits _ List.mem_cons_self).ne_eof
      obtain ⟨more, split⟩ := c.tokens_eq
      have first : c.first.kind ≠ .eof := inside _ (split ▸ List.mem_cons_self)
      have behind : l.tokens = (ts ++ c.tokens) ++ sites.flatMap tokens := by
        rw [h, List.flatMap_cons, tokens, List.append_assoc]
      have front' : ∀ u ∈ ts ++ c.tokens, u.kind ≠ .eof := List.forall_mem_append.2 ⟨front, inside⟩
      rw [words_param hlx h first (plain p List.mem_cons_self) apart, List.append_assoc,
        ih behind front' fits' (fun q hq => plain q (List.mem_cons_of_mem p hq)) apart.2,
        List.flatMap_cons]

end Site

/-! ## Writing -/

namespace RenderContext

variable {r : RenderContext} {parts : List Fragment} {value : ParamRef → Value}

/-- A parameter whose value can be written is written as its value. -/
theorem gives_param_inline {p : ParamRef} {v : Value} (inline : r.settings.style = .inline)
    (unmarked : p.nullBound = false) (resolved : r.resolve p = .ok v) (used : List String) :
    Gives (r.param p) used [.text (v.sql r.dialect r.settings.gmt)] (used ++ [p.key.display]) := by
  have text (names : List String) : r.paramText p names = .ok (v.sql r.dialect r.settings.gmt) := by
    rw [paramText, unmarked, inline, resolved]
    rfl
  refine gives_bind.2 ⟨used, used, gives_recorded.2 ⟨rfl, rfl⟩, ?_⟩
  refine gives_bind.2 ⟨_, used, gives_lift.2 ⟨text used, rfl⟩, ?_⟩
  exact gives_bind.2 ⟨(), _, gives_record.2 rfl, gives_pure.2 ⟨rfl, rfl⟩⟩

/-- Fragments are written one behind the other, each parameter as its value. -/
theorem gives_fragments (value : ParamRef → Value) (inline : r.settings.style = .inline)
    (resolved : ∀ p, .param p ∈ parts →
      p.nullBound = false ∧ (value p).Plain ∧ r.resolve p = .ok (value p)) (used : List String) :
    ∃ ps used', Gives (parts.mapM r.fragment) used ps used' ∧ ∀ pretty,
      Phrase.write pretty ps.flatten = parts.flatMap (Fragment.written r.dialect value) := by
  induction parts generalizing used with
  | nil => exact ⟨[], used, gives_pure.2 ⟨rfl, rfl⟩, fun _ => rfl⟩
  | cons part parts ih =>
    obtain ⟨p, more, first, spelled⟩ : ∃ p more, Gives (r.fragment part) used p more ∧
        ∀ pretty, Phrase.write pretty p = part.written r.dialect value := by
      cases part with
      | text t => exact ⟨[.text t], used, gives_pure.2 ⟨rfl, rfl⟩, fun _ => List.append_nil _⟩
      | param p =>
        obtain ⟨unmarked, plain, found⟩ := resolved p List.mem_cons_self
        refine ⟨_, _, gives_param_inline inline unmarked found used, fun _ => ?_⟩
        rw [plain.sql_eq]
        exact List.append_nil _
    obtain ⟨ps, used', behind, others⟩ := ih (fun p hp => resolved p (List.mem_cons_of_mem _ hp)) more
    refine ⟨p :: ps, used', ?_, fun pretty => ?_⟩
    · rw [List.mapM_cons]
      exact gives_bind.2 ⟨p, more, first, gives_bind.2 ⟨ps, used', behind, gives_pure.2 ⟨rfl, rfl⟩⟩⟩
    · rw [List.flatten_cons, Phrase.write_append, spelled, others, List.flatMap_cons]

end RenderContext

namespace Statement

variable {s : ParseSettings} {delimiter text : List Char} {st : Statement} {parts : List Fragment}
  {values : Bindings} {settings : RenderSettings}

/-- Every parameter of the statement is bound to an integer or a text that its type accepts. -/
def BoundPlainly (st : Statement) (values : Bindings) : Prop :=
  ∀ p ∈ st.body.params, ∃ v, values.get? p.key.display = some v ∧ v.Plain ∧
    ∀ spec ∈ st.params.specs, spec.key = p.key → spec.valueType.accepts v

theorem BoundPlainly.plain (h : st.BoundPlainly values) :
    ∀ p ∈ st.body.params, (values.value p).Plain := by
  intro p member
  obtain ⟨v, bound, plain, -⟩ := h p member
  rw [Bindings.value, bound]
  exact plain

/-- A value that is bound so is written in place of its parameter. -/
theorem Parsed.resolve_eq_ok (h : st.Parsed s delimiter text) (bound : st.BoundPlainly values)
    (d : Dialect) {p : ParamRef} (member : p ∈ st.body.params) :
    (st.context values settings d).resolve p = .ok (values.value p) := by
  obtain ⟨v, here, plain, accepted⟩ := bound p member
  obtain ⟨spec, inside, key, found⟩ := h.get?_params member
  have unobjected : (st.context values settings d).objection? p.key v = none := by
    refine (RenderContext.objection?_eq_none_iff found).2 ⟨fun null => ?_, fun _ => ?_⟩
    · subst null
      cases plain
    · refine ⟨accepted spec inside key, ?_⟩
      cases plain <;> rfl
  have given : (st.context values settings d).values.get? p.key.display = some v := here
  rw [RenderContext.resolve, given, Bindings.value, here]
  dsimp only
  rw [unobjected]
  rfl

/-- A statement that is kept as text is written as its sites, each parameter as its value. -/
theorem Parsed.render_sites (h : st.Parsed s delimiter text) (kept : st.body = .verbatim parts)
    (inline : settings.style = .inline) (bound : st.BoundPlainly values) :
    st.render values settings s.dialect =
      .ok (String.ofList (Site.text s.dialect values.value (st.sites s.dialect))) := by
  have notNull : ∀ p ∈ st.body.params, p.holdsNull st.params values = false := by
    intro p member
    obtain ⟨v, here, plain, -⟩ := bound p member
    have given : values.isNull p.key.display = false := by
      rw [Bindings.isNull, here]
      cases plain <;> rfl
    simp [ParamRef.holdsNull, given, h.holds.1.nullBound member]
  have members (p : ParamRef) (hp : .param p ∈ parts) : p ∈ st.body.params := by
    rw [kept]
    exact List.mem_filterMap.2 ⟨_, hp, rfl⟩
  have inlined : (st.context values settings s.dialect).settings.style = .inline := inline
  obtain ⟨ps, used, written, spelled⟩ := RenderContext.gives_fragments values.value inlined
    (fun p hp => ⟨h.holds.1.nullBound (members p hp), bound.plain p (members p hp),
      h.resolve_eq_ok bound s.dialect (members p hp)⟩) []
  have phrase : Gives ((st.context values settings s.dialect).body st.body) [] ps.flatten used := by
    rw [kept]
    exact gives_bind.2 ⟨ps, used, written, gives_pure.2 ⟨rfl, rfl⟩⟩
  have sites := (h.written_sites kept values.value).1
  rw [render, h.testForNulls_eq_self notNull, ← sites]
  exact write_eq_ok.2 ⟨_, used, phrase, congrArg String.ofList (spelled settings.pretty).symm⟩

/-- A statement that is kept as text, every parameter being bound to an integer or a text, is written
with the values in place of the parameters. If no site runs on in the text behind it, this is read
as the tokens of the statement, with the words of the value in place of each placeholder and of the
constant that is its default. -/
theorem Parsed.words_inlined (h : st.Parsed s delimiter text) (kept : st.body = .verbatim parts)
    (inline : settings.style = .inline) (bound : st.BoundPlainly values)
    (apart : Site.Apart s.dialect values.value (st.sites s.dialect)) :
    ((st.sites s.dialect).flatMap Site.tokens = st.tokens s.dialect ∧
      (∀ site ∈ st.sites s.dialect, site.Fits) ∧
      (st.sites s.dialect).filterMap Site.ref? = st.body.params) ∧
    ∃ sql, st.render values settings s.dialect = .ok sql ∧ s.dialect.allWords sql =
      (st.sites s.dialect).flatMap (Site.words s.dialect values.value) := by
  obtain ⟨tokens, fits⟩ := st.sites_spec s.dialect
  have refs := (h.written_sites kept values.value).2
  refine ⟨⟨tokens, fits, refs⟩, _, h.render_sites kept inline bound, ?_⟩
  have plain : ∀ p ∈ (st.sites s.dialect).filterMap Site.ref?, (values.value p).Plain :=
    refs ▸ bound.plain
  have sound : ∀ t ∈ st.tokens s.dialect, ∀ e, t.kind ≠ .error e := fun t ht => h.holds.1.ne_error ht
  have whole : (Lexer.ofText s.dialect.lexicon st.sql.toList).tokens =
      [] ++ (st.sites s.dialect).flatMap Site.tokens := tokens.symm
  have read := Site.words_text rfl whole nofun sound fits plain apart 0
  rw [Dialect.allWords_ofList]
  exact read

/-- `EXEC p - :a, 7 /* name:b */` is kept as text, 7 being the default of the second parameter. -/
def ofDifference : Statement where
  sql := "EXEC p - :a, 7 /* name:b */"
  body := .verbatim [.text "EXEC p - ", .param (.ofKey (.named "a")), .text ", ",
    .param ⟨.named "b", some (.integer 7), false⟩]
  params := ⟨[⟨.named "a", none, none, false⟩, ⟨.named "b", none, none, false⟩], []⟩

theorem parsed_ofDifference : ofDifference.Parsed {} [] ofDifference.sql.toList := by
  let ts : List Token :=
    [.onLine (.identifier "EXEC") "" "EXEC" 0, .onLine (.identifier "p") " " "p" 5,
      .onLine (.punct .minus) " " "-" 7, .onLine (.hostParam "a") " " ":a" 9,
      .onLine (.punct .comma) "" "," 11, .onLine (.integer 7) " " "7" 13,
      .onLine (.param ⟨.named "b", none, none, false, true⟩) " " "/* name:b */" 15]
  let p : Piece := .onLine ts 27
  have found : ((Script.ofText [] ofDifference.sql.toList).settle .standard).piece {} = .ok p := by
    decide +kernel
  have inner : p.innerTokens .standard = ts ++ [p.terminator] := by decide +kernel
  exact parsed_of_verbatim found nofun inner rfl rfl rfl rfl rfl rfl

/-- With a blank in front of it, a negative number stays apart from a minus sign. -/
theorem Parsed.words_inlined_difference :
    let values : Bindings := ⟨[("a", .int (-5)), ("b", .text "it's")]⟩
    ofDifference.Parsed {} [] ofDifference.sql.toList ∧ ofDifference.BoundPlainly values ∧
      Site.Apart .standard values.value (ofDifference.sites .standard) ∧
      ∃ sql, ofDifference.render values {} .standard = .ok sql ∧
        (Dialect.standard.allWords sql).map Word.text =
          ["EXEC", "p", "-", "-", "5", ",", "'it''s'", ""] := by
  intro values
  have bound : ofDifference.BoundPlainly values := by
    intro p member
    have params : ofDifference.body.params =
        [.ofKey (.named "a"), ⟨.named "b", some (.integer 7), false⟩] := rfl
    rw [params] at member
    simp only [List.mem_cons, List.not_mem_nil, or_false] at member
    rcases member with rfl | rfl
    · exact ⟨_, rfl, .int _, by decide⟩
    · exact ⟨_, rfl, .text _, by decide⟩
  have apart : Site.Apart .standard values.value (ofDifference.sites .standard) := by
    decide +kernel
  have inline : ({} : RenderSettings).style = .inline := rfl
  obtain ⟨-, sql, written, words⟩ := parsed_ofDifference.words_inlined rfl inline bound apart
  refine ⟨parsed_ofDifference, bound, apart, sql, written, ?_⟩
  have found : ((ofDifference.sites .standard).flatMap (Site.words .standard values.value)).map
      Word.text = ["EXEC", "p", "-", "-", "5", ",", "'it''s'", ""] := by decide +kernel
  rw [← found]
  exact congrArg (List.map Word.text) words

end Statement

end BoundSql
