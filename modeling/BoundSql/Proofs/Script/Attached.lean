import BoundSql.Proofs.RoundTrip.Statement
import BoundSql.Proofs.Script.Cutout
import BoundSql.Proofs.Script.DelimiterLine
import BoundSql.Proofs.Script.Single

/-!
# Comments attached to constants

A comment that declares a parameter takes the constant in front of it as the default. The grammar
does this for every constant, and so does a statement that is kept as text, except for the constants
that are keywords: `Statement.default_of_attached`.
-/

namespace BoundSql

open Text Token

/-- A parameter with a constant as its default, if there is one. -/
def ParamRef.withDefault (key : ParamKey) (l : Option Literal) : ParamRef :=
  { ParamRef.ofKey key with default := l }

/-! ## In expressions -/

namespace Grammar

open Parse

variable {r : Nested} {limit levels least : Nat} {u v w : Word} {l : Literal} {p : Placeholder}

/-- A constant declares no parameter. -/
theorem key?_of_literal? {k : TokenKind} (h : literal? k = some l) : k.key? = none := by
  cases k <;> first | rfl | cases h

theorem ne_of_literal? {k k' : TokenKind} (h : literal? k = some l) (h' : literal? k' = none) :
    k ≠ k' := by
  rintro rfl
  rw [h] at h'
  cases h'

/-- A constant with a comment attached to it is a parameter. -/
theorem opens_attached (constant : literal? v.kind = some l) (comment : u.kind = .param p)
    (attached : p.attached = true) :
    Opens r least [v, u] (.param (ParamRef.withDefault p.key (some l))) w := by
  have other {k : TokenKind} (hk : literal? k = none) : v.kind ≠ k := ne_of_literal? constant hk
  refine .of_reads fun rest => reads_operand (other rfl) (other rfl) (other rfl) (other rfl) ?_
  refine reads_kind.bind ?_
  rw [constant]
  refine (reads_advance (by simp)).bind (reads_kind.bind ?_)
  rw [comment]
  dsimp only
  rw [if_pos attached]
  exact (reads_advance (by simp)).bind (reads_pure _)

/-- SELECT with such a parameter as its only column. -/
theorem takes_select_attached (limit : Nat) {select : Word} (isSelect : select.kind = .keyword .SELECT)
    (constant : literal? v.kind = some l) (comment : u.kind = .param p)
    (attached : p.attached = true) (depth : 2 ≤ levels) :
    Takes (query limit levels) [select, v, u]
      (.select (Select.ofColumns [⟨.param (ParamRef.withDefault p.key (some l)), none⟩])) Word.eof := by
  have other {k : TokenKind} (hk : literal? k = none) : v.kind ≠ k := ne_of_literal? constant hk
  obtain ⟨levels, rfl⟩ : ∃ n, levels = n + 2 := ⟨levels - 2, by omega⟩
  have begins : v.Begins := ⟨other rfl, other rfl, other rfl, other rfl, other rfl⟩
  have column (w : Word) (hw : w.kind.endsTerm) : Takes (column (below limit (levels + 1))) [v, u]
      ⟨.param (ParamRef.withDefault p.key (some l)), none⟩ w := by
    have ends := TokenKind.ends_of_endsTerm hw
    refine takes_column rfl ?_ ends
    exact (opens_attached constant comment attached).takes ((Word.closes_of_ends ends).stops 0)
  have chain (w : Word) (hw : w.kind.endsChain) : OpensChain (below limit (levels + 1))
      [select, v, u] (.ofBranches .union
        [.select (Select.ofColumns [⟨.param (ParamRef.withDefault p.key (some l)), none⟩])]) w := by
    have term := TokenKind.endsTerm_of_endsChain hw
    refine .of_takes (takes_queryTerm_select (by simp [isSelect]) ?_)
    exact takes_selectCore isSelect ⟨v, [u], rfl, begins⟩ (.one (column w term)) term
  exact OpensChain.takes chain rfl (.intro .none .none .none) rfl

end Grammar

/-! ## In statements that are kept as text -/

namespace Fragment

variable {parts : List Fragment} {copied : List Char} {before : Option Token} {us vs : List Token}
  {t u : Token} {p : Placeholder}

/-- The constants that are no keywords are the same for expressions and for texts. -/
theorem literal?_of_ne_keyword {kind : TokenKind} (h : ∀ k, kind ≠ .keyword k) :
    literal? kind = Grammar.literal? kind := by
  cases kind with
  | keyword k => exact absurd rfl (h k)
  | _ => rfl

/-- What stays in the text in front of a comment that is attached to the token `t`: the token, too,
unless it is taken off as the default. -/
def beside (t u : Token) : List Char :=
  if (literal? t.kind).isSome then t.gap else t.source ++ u.gap

/-- The comment is a parameter with the constant in front of it as its default, if it is one that is
taken off. -/
theorem exists_cut_attached_here {ts : List Token} (value : t.isPlaceholder = false)
    (comment : u.kind = .param p) (attached : p.attached = true)
    (h : ofTokens copied (held? before) (t :: u :: ts) = .ok parts) :
    ∃ behind, parts = ofText (copied ++ heldText before ++ beside t u) ++
        .param (.withDefault p.key (literal? t.kind)) :: behind ∧
      ofTokens [] (held? none) ts = .ok behind := by
  have last : (held? (some t)).map (·.1) = literal? t.kind := by
    rw [held?, Option.bind_some, Option.map_map]
    cases literal? t.kind <;> rfl
  rcases ofTokens_cons h with ⟨q, behind, param, -, -⟩ | ⟨-, copied', text, rest⟩
  · rw [isPlaceholder, key?_of_param? param] at value
    cases value
  · rcases ofTokens_cons rest with ⟨q, behind, param, cut, parts⟩ | ⟨noParam, -⟩
    · rw [last, comment] at param
      have same : q = .withDefault p.key (literal? t.kind) := by
        rw [param?, if_pos attached] at param
        exact (Option.some.inj param).symm
      subst same
      refine ⟨behind, ?_, cut⟩
      have between : (if (literal? t.kind).isSome then copied' else
          copied' ++ heldText (some t) ++ u.gap) = copied ++ heldText before ++ beside t u := by
        unfold beside
        cases constant : literal? t.kind with
        | none =>
          rw [text]
          simp
        | some l =>
          have held : heldText (some t) = t.lexeme := by
            rw [heldText, held?, Option.bind_some, constant]
            rfl
          rw [held, source, ← List.append_assoc] at text
          exact List.append_cancel_right text
      rw [← between]
      exact parts
    · rw [comment] at noParam
      cases noParam

/-- The texts in front of a comment attached to the token `t`, and behind it. -/
theorem exists_cut_attached
    (solid : ∀ w ∈ us ++ t :: u :: vs, w.isPlaceholder → w.lexeme ≠ [] ∧ Trimmed w.lexeme)
    (value : t.isPlaceholder = false) (comment : u.kind = .param p) (attached : p.attached = true)
    (h : ofTokens copied (held? before) (us ++ t :: u :: vs) = .ok parts) :
    ∃ front behind cuts cuts',
      parts = front ++ .param (.withDefault p.key (literal? t.kind)) :: behind ∧
      Cut front cuts (copied ++ heldText before ++ us.flatMap source ++ beside t u) ∧
      cuts.map Cutout.placeholder = us.filter isPlaceholder ∧
      Cut behind cuts' (trimEnd (vs.flatMap source)) ∧
      cuts'.map Cutout.placeholder = vs.filter isPlaceholder := by
  induction us generalizing copied before parts with
  | nil =>
    obtain ⟨behind, rfl, rest⟩ := exists_cut_attached_here value comment attached h
    obtain ⟨cuts, cut, placeholders, -⟩ := exists_cuts
      (fun w hw => solid w (List.mem_cons_of_mem t (List.mem_cons_of_mem u hw))) rest
    have text := Cut.nil.ofText (copied ++ heldText before ++ beside t u)
    simp only [List.append_nil] at text
    refine ⟨_, behind, [], cuts, rfl, ?_, rfl, cut, placeholders⟩
    rwa [List.flatMap_nil, List.append_nil]
  | cons w us ih =>
    have solid' (x : Token) (hx : x ∈ us ++ t :: u :: vs) := solid x (List.mem_cons_of_mem w hx)
    rcases ofTokens_cons h with ⟨q, rest, param, cut, rfl⟩ | ⟨noParam, copied', text, cut⟩
    · have key : w.isPlaceholder := by rw [isPlaceholder, key?_of_param? param]; rfl
      have first : ofTokens [] (held? none) (us ++ t :: u :: vs) = .ok rest := cut
      obtain ⟨front, behind, cuts, cuts', rfl, cutFront, placeholders, others⟩ := ih solid' first
      obtain ⟨default, here, -, spelled⟩ := exists_cutout copied param
      have all := (cutFront.param here).ofText
        (if q.default.isSome then copied else copied ++ heldText before ++ w.gap)
      rw [← List.append_assoc, spelled] at all
      refine ⟨_, behind, ⟨default, w⟩ :: cuts, cuts', (List.append_assoc _ (.param q :: front) _).symm,
        ?_, ?_, others⟩
      · rw [List.flatMap_cons]
        simpa [heldText, held?] using all
      · rw [List.map_cons, placeholders, List.filter_cons_of_pos key]
    · obtain ⟨front, behind, cuts, cuts', rfl, cutFront, placeholders, others⟩ := ih solid' cut
      refine ⟨front, behind, cuts, cuts', rfl, ?_, ?_, others⟩
      · rw [List.flatMap_cons, ← List.append_assoc (copied ++ heldText before), ← text]
        exact cutFront
      · rw [placeholders, List.filter_cons_of_neg
          (by simp [isPlaceholder, key?_of_no_param? noParam])]

end Fragment

namespace Statement

variable {s : ParseSettings} {text : List Char} {v u : Word} {l : Literal} {p : Placeholder}

/-- SELECT with a constant and a comment attached to it is read within the limits. -/
theorem readFirst_select_attached (two : s.dialect.words text = [v, u])
    (constant : Grammar.literal? v.kind = some l) (comment : u.kind = .param p)
    (attached : p.attached = true) (depth : 2 ≤ s.maxDepth)
    (fits : byteLength ("SELECT ".toList ++ text) ≤ s.maxLength) :
    ∃ st, readFirst s [] ("SELECT ".toList ++ text) = (.ok (st, []), []) ∧
      st.body = .select (Select.ofColumns [⟨.param (ParamRef.withDefault p.key (some l)), none⟩]) := by
  have words : s.dialect.words ("SELECT ".toList ++ text) = [.key .SELECT, v, u] := by
    have select := spells_keyword s.dialect .SELECT (' ' :: text) (ends_cons rfl _)
    have blank : s.dialect.words (' ' :: text) = [v, u] := (Lexicon.words_blank _ _ rfl _).trans two
    rw [blank] at select
    exact select
  have command : Place.delimiterLine? ("SELECT ".toList ++ text) = none := by
    rw [← Option.not_isSome_iff_eq_none, Place.isSome_delimiterLine?]
    exact Place.not_delimiterLine_cons (k := 'S') rfl (by decide) _
  have first : s.dialect.lexicon.ahead ("SELECT ".toList ++ text) = "SELECT ".toList ++ text :=
    Lexicon.ahead_cons (c := 'S') rfl fun more => by simp [commentLead]
  have plain : ∀ w ∈ [Word.key .SELECT, v, u], w.kind.Plain := by
    intro w member
    simp only [List.mem_cons, List.not_mem_nil, or_false] at member
    rcases member with rfl | rfl | rfl
    · exact ⟨by simp [Word.key], by simp [Word.key]⟩
    · exact ⟨Grammar.ne_of_literal? constant rfl, fun _ => Grammar.ne_of_literal? constant rfl⟩
    · exact ⟨by simp [comment], by simp [comment]⟩
  obtain ⟨piece, lead, inner, read⟩ := readFirst_of_plain command first words plain fits
  have tree : piece.decompose s = .ok (some (.select (Select.ofColumns
      [⟨.param (ParamRef.withDefault p.key (some l)), none⟩]))) := by
    have taken := Body.ofTokens_ofText words (.inl rfl) (Grammar.takes_select_attached
      s.maxDepth rfl constant comment attached depth)
    have opens : Piece.opensStatement piece.lead.kind = true := by
      rw [lead]
      rfl
    rw [Piece.decompose, if_pos opens, inner, taken]
    rfl
  have body : piece.body s = .ok (.select (Select.ofColumns
      [⟨.param (ParamRef.withDefault p.key (some l)), none⟩])) := by
    rw [Piece.body, tree]
    rfl
  have conflicts : (ParamTable.ofTokens (piece.innerTokens s.dialect)).conflicts = [] := by
    have kinds : (piece.innerTokens s.dialect).map (·.kind) =
        [Token.mk (.keyword .SELECT) [] [] .start, ⟨v.kind, [], [], .start⟩,
          ⟨.param p, [], [], .start⟩, ⟨.eof, [], [], .start⟩].map (·.kind) := by
      have all := Lexer.toWord_tokens_ofText s.dialect.lexicon ("SELECT ".toList ++ text) .start
      have kinds := congrArg (List.map Word.kind) (all.trans (congrArg (· ++ [Word.eof]) words))
      rw [List.map_map] at kinds
      rw [inner]
      refine kinds.trans ?_
      rw [List.map_append, List.map_cons, List.map_cons, List.map_cons, comment]
      rfl
    have value : ParamSpec.ofToken? ⟨v.kind, [], [], .start⟩ = none := by
      have key := ParamSpec.key?_ofToken? ⟨v.kind, [], [], .start⟩
      rw [show TokenKind.key? _ = none from Grammar.key?_of_literal? constant] at key
      exact Option.map_eq_none_iff.1 key
    rw [ParamTable.ofTokens, ParamSpec.filterMap_ofToken?_congr kinds, List.filterMap_cons_none rfl,
      List.filterMap_cons_none value]
    rfl
  have whole : piece.read s = .ok ⟨String.ofList (trimEnd piece.text), _,
      .ofTokens (piece.innerTokens s.dialect)⟩ :=
    Piece.read_eq_ok_iff.2 ⟨body, rfl, fun _ => conflicts, rfl, rfl⟩
  rw [read, whole]
  exact ⟨_, rfl, rfl⟩

/-- A comment attached to a constant takes it as the default of its parameter. SELECT reads every
constant so. In a statement that is kept as text it is so for every constant but NULL, TRUE and
FALSE: these stay in the text, in front of a parameter without a default. -/
theorem default_of_attached (constant : Grammar.literal? v.kind = some l)
    (comment : u.kind = .param p) (attached : p.attached = true) :
    (∀ (s : ParseSettings) (text : List Char), s.dialect.words text = [v, u] → 2 ≤ s.maxDepth →
      byteLength ("SELECT ".toList ++ text) ≤ s.maxLength →
        ∃ st, readFirst s [] ("SELECT ".toList ++ text) = (.ok (st, []), []) ∧
          st.body = .select
            (Select.ofColumns [⟨.param (ParamRef.withDefault p.key (some l)), none⟩])) ∧
    ∀ (s : ParseSettings) (delimiter text : List Char) (st : Statement) (parts : List Fragment)
      (ts vs : List Token) (t t' : Token), st.Parsed s delimiter text → st.body = .verbatim parts →
      st.tokens s.dialect = ts ++ t :: t' :: vs → t.toWord = v → t'.toWord = u →
        ∃ q front behind cuts cuts', parts = front ++ .param q :: behind ∧ q.key = p.key ∧
          ((∀ k, v.kind ≠ .keyword k) →
            q.default = some l ∧ Fragment.Cut front cuts (ts.flatMap source ++ t.gap)) ∧
          (∀ k, v.kind = .keyword k →
            q.default = none ∧ Fragment.Cut front cuts (ts.flatMap source ++ t.source ++ t'.gap)) ∧
          cuts.map Cutout.placeholder = ts.filter Token.isPlaceholder ∧
          Fragment.Cut behind cuts' (trimEnd (vs.flatMap source)) ∧
          cuts'.map Cutout.placeholder = vs.filter Token.isPlaceholder := by
  refine ⟨fun s text two depth fits =>
    readFirst_select_attached two constant comment attached depth fits, ?_⟩
  rintro s delimiter text st parts ts vs t t' parsed kept tokens rfl rfl
  have own : Fragment.ofTokens [] (Fragment.held? none) (ts ++ t :: t' :: vs) = .ok parts :=
    tokens ▸ parsed.ofTokens_of_verbatim kept
  have solid (w : Token) (member : w ∈ ts ++ t :: t' :: vs) :=
    parsed.solid_placeholder (tokens.symm ▸ member)
  have value : t.isPlaceholder = false := by
    rw [Token.isPlaceholder, Grammar.key?_of_literal? (k := t.kind) constant]
    rfl
  obtain ⟨front, behind, cuts, cuts', rfl, cut, placeholders, others⟩ :=
    Fragment.exists_cut_attached solid value comment attached own
  replace cut : Fragment.Cut front cuts (ts.flatMap source ++ Fragment.beside t t') := cut
  refine ⟨_, front, behind, cuts, cuts', rfl, rfl, fun noWord => ?_, fun k word => ?_,
    placeholders, others⟩
  · have taken : Fragment.literal? t.kind = some l :=
      (Fragment.literal?_of_ne_keyword noWord).trans constant
    rw [Fragment.beside, taken] at cut
    exact ⟨taken, cut⟩
  · have left : Fragment.literal? t.kind = none := by
      rw [show t.kind = .keyword k from word]
      rfl
    rw [Fragment.beside, left] at cut
    rw [List.append_assoc]
    exact ⟨left, cut⟩

/-- `EXEC TRUE /* name:a */` is kept as text, and TRUE stays in it. -/
def ofTruth : Statement where
  sql := "EXEC TRUE /* name:a */"
  body := .verbatim [.text "EXEC TRUE ", .param (.ofKey (.named "a"))]
  params := ⟨[⟨.named "a", none, none, false⟩], []⟩

theorem parsed_ofTruth : ofTruth.Parsed {} [] ofTruth.sql.toList := by
  let ts : List Token :=
    [.onLine (.identifier "EXEC") "" "EXEC" 0, .onLine (.keyword .TRUE) " " "TRUE" 5,
      .onLine (.param ⟨.named "a", none, none, false, true⟩) " " "/* name:a */" 10]
  let p : Piece := .onLine ts 22
  have found : ((Script.ofText [] ofTruth.sql.toList).settle .standard).piece {} = .ok p := by
    decide +kernel
  have inner : p.innerTokens .standard = ts ++ [p.terminator] := by decide +kernel
  exact parsed_of_verbatim found nofun inner rfl rfl rfl rfl rfl rfl

/-- TRUE is the default of the column of SELECT, and not of the parameter in the text. -/
theorem default_of_attached_true :
    (∃ st, readFirst {} [] ("SELECT ".toList ++ "TRUE /* name:a */".toList) = (.ok (st, []), []) ∧
      st.body = .select (Select.ofColumns
        [⟨.param (ParamRef.withDefault (.named "a") (some (.boolean true))), none⟩])) ∧
    ofTruth.Parsed {} [] ofTruth.sql.toList ∧
    ∃ (q : ParamRef) (front behind : List Fragment),
      [.text "EXEC TRUE ", .param (.ofKey (.named "a"))] = front ++ .param q :: behind ∧
        q.key = .named "a" ∧ q.default = none := by
  let truth : Word := ⟨.keyword .TRUE, "TRUE".toList⟩
  let comment : Word := ⟨.param ⟨.named "a", none, none, false, true⟩, "/* name:a */".toList⟩
  have two : Dialect.standard.words "TRUE /* name:a */".toList = [truth, comment] := by
    decide +kernel
  have tokens : ofTruth.tokens .standard = [.onLine (.identifier "EXEC") "" "EXEC" 0] ++
      .onLine truth.kind " " "TRUE" 5 :: .onLine comment.kind " " "/* name:a */" 10 ::
        [.onLine .eof "" "" 22] := by
    decide +kernel
  obtain ⟨select, verbatim⟩ := default_of_attached (v := truth) (u := comment) rfl rfl rfl
  obtain ⟨q, front, behind, cuts, cuts', parts, key, -, word, -⟩ :=
    verbatim {} [] _ ofTruth _ _ _ _ _ parsed_ofTruth rfl tokens rfl rfl
  exact ⟨select {} _ two (by decide) (by decide), parsed_ofTruth, q, front, behind, parts, key,
    (word .TRUE rfl).1⟩

end Statement

end BoundSql
