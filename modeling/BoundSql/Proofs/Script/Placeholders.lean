import BoundSql.Proofs.Grammar.Collected
import BoundSql.Proofs.Param.Key
import BoundSql.Proofs.Script.Parsed
import BoundSql.Proofs.Script.Shift
import BoundSql.Proofs.Token.Trimmed

/-!
# The placeholders of a statement

However a statement is read, taken apart by the grammar or kept as text, each placeholder of its
text is one parameter of its tree and one declaration of its parameter table:
`Statement.Parsed.holds` and `Statement.Parsed.params_eq`. What the table says then follows from
what it is made of (`Statement.Parsed.params_of_placeholders`).
-/

namespace BoundSql

open Text Token

/-! ## Bags -/

namespace Bag

theorem mem_ofParams {ps : List ParamRef} {x : Except LexicalError ParamRef} :
    x ∈ ofParams ps ↔ ∃ p ∈ ps, x = .ok p.bare := by
  simp [ofParams, eq_comm]

theorem mem_sum_tokens {ts : List Token} {x : Except LexicalError ParamRef} :
    x ∈ (ts.map (·.kind.bag)).sum ↔ ∃ t ∈ ts, x ∈ t.kind.bag := by
  induction ts with
  | nil => simp
  | cons t ts ih => simp [ih]

end Bag

namespace TokenKind

/-- What a token holds beside errors is a parameter of the key that it declares. -/
theorem mem_bag {k : TokenKind} {p : ParamRef} :
    .ok p ∈ k.bag ↔ ∃ key ∈ k.key?, p = .ofKey key := by
  cases k <;> simp [bag, key?]

end TokenKind

/-- The tokens hold just these parameters, and no error. -/
def Holds (ts : List Token) (ps : List ParamRef) : Prop :=
  (ts.map (·.kind.bag)).sum = Bag.ofParams ps

namespace Holds

variable {ts : List Token} {ps : List ParamRef}

theorem ne_error (h : Holds ts ps) {t : Token} (member : t ∈ ts) (e : LexicalError) :
    t.kind ≠ .error e := by
  intro kind
  have held : .error e ∈ (ts.map (·.kind.bag)).sum :=
    Bag.mem_sum_tokens.2 ⟨t, member, by simp [kind, TokenKind.bag]⟩
  rw [h, Bag.mem_ofParams] at held
  obtain ⟨p, -, same⟩ := held
  cases same

/-- The tokens only say which parameters there are: that one is to be NULL is decided later. -/
theorem nullBound (h : Holds ts ps) {p : ParamRef} (member : p ∈ ps) : p.nullBound = false := by
  have held : .ok p.bare ∈ (ts.map (·.kind.bag)).sum := by
    rw [h]
    exact Bag.mem_ofParams.2 ⟨p, member, rfl⟩
  obtain ⟨t, -, inside⟩ := Bag.mem_sum_tokens.1 held
  obtain ⟨key, -, same⟩ := TokenKind.mem_bag.1 inside
  exact congrArg ParamRef.nullBound same

/-- The keys of the parameters are those that the tokens declare. -/
theorem exists_key_iff (h : Holds ts ps) {key : ParamKey} : (∃ p ∈ ps, p.key = key) ↔
    key ∈ (ts.filterMap ParamSpec.ofToken?).map ParamSpec.key := by
  rw [ParamSpec.map_key_ofToken?, List.mem_filterMap]
  constructor
  · rintro ⟨p, member, rfl⟩
    have held : .ok p.bare ∈ (ts.map (·.kind.bag)).sum := by
      rw [h]
      exact Bag.mem_ofParams.2 ⟨p, member, rfl⟩
    obtain ⟨t, within, inside⟩ := Bag.mem_sum_tokens.1 held
    obtain ⟨key, declared, same⟩ := TokenKind.mem_bag.1 inside
    refine ⟨t, within, ?_⟩
    rw [show p.key = key from congrArg ParamRef.key same]
    exact declared
  · rintro ⟨t, within, declared⟩
    have held : .ok (ParamRef.ofKey key) ∈ (ts.map (·.kind.bag)).sum :=
      Bag.mem_sum_tokens.2 ⟨t, within, TokenKind.mem_bag.2 ⟨key, declared, rfl⟩⟩
    rw [h, Bag.mem_ofParams] at held
    obtain ⟨p, member, same⟩ := held
    exact ⟨p, member, (congrArg ParamRef.key (Except.ok.inj same)).symm⟩

end Holds

/-! ## Statements kept as text -/

namespace Fragment

theorem filterMap_ref?_ofText (cs : List Char) : (ofText cs).filterMap ref? = [] := by
  unfold ofText
  split <;> rfl

/-- A placeholder is cut out as the parameter that its token holds. -/
theorem bag_of_param? {before : Option Literal} {kind : TokenKind} {p : ParamRef}
    (h : param? before kind = some p) : kind.bag = {.ok p.bare} := by
  unfold param? at h
  split at h <;> cases h <;> rfl

theorem bag_of_no_param? {before : Option Literal} {kind : TokenKind}
    (sound : ∀ e, kind ≠ .error e) (h : param? before kind = none) : kind.bag = 0 := by
  cases kind with
  | error e => exact absurd rfl (sound e)
  | param => cases h
  | hostParam => cases h
  | _ => rfl

/-- A parameter between two texts. -/
theorem holds_cut {front : List Fragment} {p : ParamRef} {t : Token} {ts : List Token}
    {rest : Except SqlError (List Fragment)} {parts : List Fragment}
    (text : front.filterMap ref? = []) (held : t.kind.bag = {.ok p.bare})
    (ih : ∀ behind, rest = .ok behind → Holds ts (behind.filterMap ref?))
    (h : rest.map (front ++ param p :: ·) = .ok parts) :
    Holds (t :: ts) (parts.filterMap ref?) := by
  cases rest with
  | error e => cases h
  | ok behind =>
    cases h
    have tail : (ts.map (·.kind.bag)).sum = Bag.ofParams (behind.filterMap ref?) := ih _ rfl
    rw [Holds, List.map_cons, List.sum_cons, held, tail, List.filterMap_append, text,
      List.nil_append]
    rfl

/-- Each placeholder is cut out of a text that is kept. -/
theorem holds_ofTokens {copied : List Char} {held : Option (Literal × List Char)} {ts : List Token}
    {parts : List Fragment} (h : ofTokens copied held ts = .ok parts) :
    Holds ts (parts.filterMap ref?) := by
  have plain {t : Token} {ts : List Token} {parts : List Fragment} (nothing : t.kind.bag = 0)
      (ih : Holds ts (parts.filterMap ref?)) : Holds (t :: ts) (parts.filterMap ref?) := by
    rw [Holds, List.map_cons, List.sum_cons, nothing, zero_add]
    exact ih
  suffices every : ∀ parts, ofTokens copied held ts = .ok parts →
      Holds ts (parts.filterMap ref?) from every parts h
  clear h
  fun_induction ofTokens copied held ts with
  | case1 =>
    intro parts h
    cases h
    rw [filterMap_ref?_ofText]
    rfl
  | case2 =>
    intro parts h
    cases h
  | case3 copied t ts p l lexeme sound param ih =>
    intro parts h
    rw [param] at h
    exact holds_cut (filterMap_ref?_ofText _) (bag_of_param? param) ih h
  | case4 copied t ts p sound param ih =>
    intro parts h
    rw [param] at h
    exact holds_cut (filterMap_ref?_ofText _) (bag_of_param? param) ih h
  | case5 copied t ts held copied' l sound literal noParam ih =>
    intro parts h
    rw [noParam] at h
    dsimp only at h
    rw [literal] at h
    exact plain (bag_of_no_param? sound noParam) (ih parts h)
  | case6 copied t ts held copied' sound noLiteral noParam ih =>
    intro parts h
    rw [noParam] at h
    dsimp only at h
    rw [noLiteral] at h
    exact plain (bag_of_no_param? sound noParam) (ih parts h)

end Fragment

/-! ## Statements -/

/-- Where tokens stand and how they are written has no part in what they declare. -/
theorem ParamSpec.filterMap_ofToken?_congr {ts us : List Token}
    (h : ts.map (·.kind) = us.map (·.kind)) : ts.filterMap ofToken? = us.filterMap ofToken? := by
  have kinds (ts : List Token) : ts.filterMap ofToken? =
      (ts.map (·.kind)).filterMap fun kind => ofToken? ⟨kind, [], [], .start⟩ := by
    rw [List.filterMap_map]
    rfl
  rw [kinds, kinds, h]

/-- The tokens of a text are closed by its end. -/
theorem Lexer.closed_tokens (l : Lexer) : Token.Closed l.tokens := by
  induction hn : l.rest.length using Nat.strongRecOn generalizing l with
  | ind n ih =>
    by_cases eof : l.next.1.kind = .eof
    · rw [tokens_of_eof eof, Token.Closed, if_pos eof]
    · rw [tokens_of_ne_eof eof, Token.Closed, if_neg eof]
      exact ih _ (hn ▸ length_rest_next_lt eof) _ rfl

/-- A piece that is read holds just the parameters of its tree, whose joins stand in order. -/
theorem Piece.holds_body {s : ParseSettings} {p : Piece} {b : Body} (h : p.body s = .ok b) :
    Holds (p.innerTokens s.dialect) b.params ∧ b.Ordered := by
  rcases body_cases h with ⟨parts, rfl, kept⟩ | read
  · exact ⟨Fragment.holds_ofTokens kept, nofun, nofun⟩
  · exact Body.bag_ofTokens (Lexer.closed_tokens _) read

namespace Statement

/-- The tokens of the text of a statement. -/
def tokens (d : Dialect) (st : Statement) : List Token :=
  (Lexer.ofText { dialect := d } st.sql.toList).tokens

/-- What the placeholders in the text of a statement declare, one after the other. -/
def declarations (d : Dialect) (st : Statement) : List ParamSpec :=
  (st.tokens d).filterMap ParamSpec.ofToken?

variable {s : ParseSettings} {delimiter text : List Char} {st : Statement}

/-- The text that a statement keeps has the tokens of the piece that it was read from, but for the
blanks in front of the end of the input. -/
theorem Parsed.exists_tokens (h : st.Parsed s delimiter text) :
    ∃ (p : Piece) (ts : List Token) (last : Token) (pos : Position), p.read s = .ok st ∧
      p.innerTokens s.dialect = ts ++ [last] ∧ last.kind = .eof ∧ last.lexeme = [] ∧
      (st.tokens s.dialect).map (Token.shift p.lead.pos) =
        ts ++ [{ kind := .eof, gap := trimEnd last.gap, lexeme := [], pos }] := by
  obtain ⟨script, p, -, -, read, -⟩ := h.exists_piece
  obtain ⟨body, -, -, sql, -⟩ := Piece.read_eq_ok_iff.1 read
  obtain ⟨ts, last, inner, eof, empty, -⟩ :=
    (Lexer.ofText { dialect := s.dialect } p.text p.lead.pos).tiles.ends
  replace inner : p.innerTokens s.dialect = ts ++ [last] := inner
  have sound (t : Token) (ht : t ∈ ts) (e : LexicalError) : t.kind ≠ .error e :=
    (Piece.holds_body body).1.ne_error (inner ▸ List.mem_append_left _ ht) e
  obtain ⟨-, pos, trimmed⟩ := Lexer.tokens_trimEnd rfl inner sound
  have moved : (Lexer.ofText { dialect := s.dialect } p.text p.lead.pos).onto (trimEnd p.text) =
      (Lexer.ofText { dialect := s.dialect } (trimEnd p.text)).shift p.lead.pos := rfl
  refine ⟨p, ts, last, pos, read, inner, eof, empty, ?_⟩
  rw [tokens, sql, String.toList_ofList, ← Lexer.tokens_shift Position.counted_start, ← moved]
  exact trimmed

/-- The text that a statement keeps has the words of the piece that it was read from. -/
theorem Parsed.exists_words (h : st.Parsed s delimiter text) : ∃ p : Piece, p.read s = .ok st ∧
    (st.tokens s.dialect).map toWord = (p.innerTokens s.dialect).map toWord := by
  obtain ⟨p, ts, last, pos, read, inner, eof, empty, kept⟩ := h.exists_tokens
  refine ⟨p, read, ?_⟩
  have words := congrArg (List.map toWord) kept
  rw [List.map_map, List.map_append] at words
  rw [inner, List.map_append, List.map_singleton, toWord, eof, empty]
  exact words

/-- The text that a statement keeps has the tokens of the piece that it was read from. -/
theorem Parsed.exists_kinds (h : st.Parsed s delimiter text) : ∃ p : Piece, p.read s = .ok st ∧
    (st.tokens s.dialect).map (·.kind) = (p.innerTokens s.dialect).map (·.kind) := by
  obtain ⟨p, read, words⟩ := h.exists_words
  have kinds := congrArg (List.map Word.kind) words
  rw [List.map_map, List.map_map] at kinds
  exact ⟨p, read, kinds⟩

/-- The text of a statement holds just the parameters of its tree, and no error. The joins of the
tree stand in order. -/
theorem Parsed.holds (h : st.Parsed s delimiter text) :
    Holds (st.tokens s.dialect) st.body.params ∧ st.body.Ordered := by
  obtain ⟨p, read, kinds⟩ := h.exists_kinds
  obtain ⟨held, sound⟩ := Piece.holds_body (Piece.read_eq_ok_iff.1 read).1
  have bags := congrArg (List.map TokenKind.bag) kinds
  rw [List.map_map, List.map_map] at bags
  exact ⟨(congrArg List.sum bags).trans held, sound⟩

/-- The table of a statement is made of what the placeholders of its text declare. -/
theorem Parsed.params_eq (h : st.Parsed s delimiter text) :
    st.params = .ofSpecs (st.declarations s.dialect) := by
  obtain ⟨p, read, kinds⟩ := h.exists_kinds
  obtain ⟨-, -, -, -, params⟩ := Piece.read_eq_ok_iff.1 read
  rw [params, ParamTable.ofTokens, declarations, ParamSpec.filterMap_ofToken?_congr kinds]

/-- A statement that is one placeholder. -/
def ofPlaceholder (sql name : String) : Statement :=
  { sql
    body := .verbatim [.param (.ofKey (.named name))]
    params := ⟨[⟨.named name, none, none, false⟩], []⟩ }

/-- The text `##n` is such a statement. -/
theorem parsed_placeholder : (ofPlaceholder "##n" "n").Parsed {} [] ['#', '#', 'n'] := by
  let n : Token :=
    ⟨.param ⟨.named "n", none, none, false, false⟩, [], ['#', '#', 'n'], ⟨0, 1, 1⟩⟩
  have first : (Lexer.ofText { dialect := .standard } ['#', '#', 'n'] .start).next =
      (n, ⟨{ dialect := .standard }, [], ⟨3, 1, 4⟩, 0⟩) := by
    have scanned : Token.scan { dialect := .standard } 0 '#' ['#', 'n'] = (n.kind, 2) := by
      decide +kernel
    exact (Lexer.next_of_scan rfl (by exact scanned)).trans rfl
  have stop : (Lexer.mk { dialect := .standard } [] ⟨3, 1, 4⟩ 0).piece 1048576
      ⟨0, false, false, false, .none⟩ (some 0) =
        .ok ⟨[], ⟨.eof, [], [], ⟨3, 1, 4⟩⟩, ⟨{ dialect := .standard }, [], ⟨3, 1, 4⟩, 0⟩⟩ := by
    rw [Lexer.piece_of_true rfl]
    rfl
  have piece : (Lexer.ofText { dialect := .standard } ['#', '#', 'n'] .start).piece 1048576 .start
      none = .ok ⟨[n], ⟨.eof, [], [], ⟨3, 1, 4⟩⟩,
        ⟨{ dialect := .standard }, [], ⟨3, 1, 4⟩, 0⟩⟩ := by
    rw [Lexer.piece_of_false (by rw [Lexer.atEnd, Lexer.nextIn, first]; rfl), Lexer.nextIn, first]
    exact congrArg (Except.map _) stop
  have tokens : (Lexer.ofText { dialect := .standard } ['#', '#', 'n'] .start).tokens =
      [n, ⟨.eof, [], [], ⟨3, 1, 4⟩⟩] := by
    rw [Lexer.tokens_of_ne_eof (by rw [first]; simp [n]), first, Lexer.tokens_of_eof rfl]
    rfl
  have whole : Piece.read {} ⟨[n], ⟨.eof, [], [], ⟨3, 1, 4⟩⟩,
      ⟨{ dialect := .standard }, [], ⟨3, 1, 4⟩, 0⟩⟩ = .ok (ofPlaceholder "##n" "n") := by
    generalize hp : (Piece.mk _ _ _) = p
    have inner : p.innerTokens ({} : ParseSettings).dialect =
        [n, ⟨.eof, [], [], ⟨3, 1, 4⟩⟩] := by
      rw [← hp]
      exact tokens
    unfold Piece.read Piece.body
    rw [inner, ← hp]
    rfl
  have found : (Script.ofText [] ['#', '#', 'n']).nextPiece {} = _ :=
    Script.nextPiece_of_tokens piece (by simp)
  refine .inl ⟨[], ?_⟩
  rw [readFirst, Script.next_of_some found, whole]
  rfl

end Statement

end BoundSql
