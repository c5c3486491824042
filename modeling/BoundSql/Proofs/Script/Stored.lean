import BoundSql.Proofs.Script.Parsed
import BoundSql.Proofs.Script.Shift
import BoundSql.Proofs.Script.Terminator
import BoundSql.Proofs.Token.Trimmed

/-!
# The text that a statement keeps

A statement keeps its text from the first token up to the delimiter, without the blanks at the end.
Where no command sets another delimiter, that text says all about the statement: it is read as the
same statement again, and nothing of it is left.
-/

namespace BoundSql

open Text Token

namespace Lexer

variable {l l' : Lexer} {limit : Nat} {blocks : BlockState} {start : Option Nat} {p : Piece}

/-- The tokens of a piece and its terminator are tokens of the text, the blocks left aside. -/
theorem piece_tokens (hlx : l.lexicon.delimiter = []) (h : l.piece limit blocks start = .ok p) :
    (∃ more, l.tokens = p.tokens.map outsideBlocks ++ p.terminator :: more) ∧
      ∀ t ∈ p.tokens.map outsideBlocks, t.kind ≠ .eof ∧ ∀ e, t.kind ≠ .error e := by
  induction hn : l.rest.length using Nat.strongRecOn generalizing l blocks start p with
  | ind n ih =>
    rcases piece_cases h with ⟨ends, rfl⟩ | ⟨inner, q, rest, rfl⟩
    · refine ⟨?_, by simp⟩
      have same : (l.nextIn blocks).2 = l.next.1 := by
        rcases blocks.kind_step l.lexicon.dialect l.next.1 with kept | ⟨-, changed⟩
        · exact congrArg (fun k => { l.next.1 with kind := k }) kept
        · have changed : (l.nextIn blocks).2.kind = .punct .blockSemicolon := changed
          rcases endsPiece_eq_true ends with eof | semicolon
          · cases changed.symm.trans eof
          · cases changed.symm.trans semicolon
      simp only [List.map_nil, List.nil_append, same]
      by_cases eof : l.next.1.kind = .eof
      · exact ⟨[], tokens_of_eof eof⟩
      · exact ⟨_, tokens_of_ne_eof eof⟩
    · obtain ⟨kind, sound⟩ := next_inner inner
      obtain ⟨⟨more, tokens⟩, hq⟩ :=
        ih _ (hn ▸ length_rest_next_lt kind) (by rw [lexicon_next, hlx]) rest rfl
      have first : (l.nextIn blocks).2.outsideBlocks = l.next.1 := by
        refine outsideBlocks_step _ _ (ne_blockSemicolon_of_mem_tokens hlx (l := l) ?_)
        rw [tokens_of_ne_eof kind]
        exact List.mem_cons_self
      have all : (q.push (l.nextIn blocks).2).tokens.map outsideBlocks =
          l.next.1 :: q.tokens.map outsideBlocks := congrArg (· :: _) first
      rw [all]
      refine ⟨⟨more, ?_⟩, fun t ht => ?_⟩
      · rw [tokens_of_ne_eof kind, tokens]
        rfl
      · rcases List.mem_cons.1 ht with rfl | ht
        · exact ⟨kind, sound⟩
        · exact hq t ht

/-- A piece begins at its first token. -/
theorem piece_settled {t : Token} {ts : List Token} (h : l.piece limit blocks start = .ok p)
    (tokens : p.tokens = t :: ts) :
    l.settled.piece limit blocks start = .ok { p with tokens := t.flush :: ts } := by
  have step : l.settled.nextIn blocks = ((l.nextIn blocks).1, (l.nextIn blocks).2.flush) := by
    rw [nextIn, next_settled]
    rfl
  rcases piece_cases h with ⟨-, rfl⟩ | ⟨inner, q, rest, rfl⟩
  · cases tokens
  · obtain ⟨rfl, rfl⟩ :=
      List.cons_eq_cons.1 (show (l.nextIn blocks).2 :: q.tokens = t :: ts from tokens)
    have ends : l.settled.atEnd limit blocks start = .ok false := by
      rw [atEnd, step]
      exact inner
    have behind : l.settled.next.2 = l.next.2 := by rw [next_settled]
    rw [piece_of_false ends, behind, step]
    exact congrArg (Except.map _) rest

theorem rest_next_of_eof (h : l.next.1.kind = .eof) : l.next.2.rest = [] := by
  unfold next at h ⊢
  split
  · rfl
  · rename_i c cs ahead
    rw [ahead] at h
    exact absurd h (scan_ne_eof _ _ _ _)

/-- A piece goes as far in a text that ends where the piece does. -/
theorem piece_of_tokens {ts more : List Token} {last eof : Token}
    (dialect : l'.lexicon.dialect = l.lexicon.dialect) (h : l.tokens = ts ++ last :: more)
    (h' : l'.tokens = ts ++ [eof]) (ended : eof.kind = .eof)
    (taken : l.piece limit blocks start = .ok p) (size : p.tokens.length = ts.length) :
    ∃ after : Lexer, after.rest = [] ∧
      l'.piece limit blocks start = .ok ⟨p.tokens, eof, after⟩ := by
  induction ts generalizing l l' blocks start p with
  | nil =>
    obtain ⟨first, -⟩ := next_of_tokens h'
    have kind : l'.next.1.kind = .eof := by rw [first, ended]
    have stays : (l'.nextIn blocks).2 = eof := by
      have kept := BlockState.kind_step_of_eof (d := l'.lexicon.dialect) (s := blocks) kind
      rw [← kind] at kept
      rw [← first]
      exact congrArg (fun k => { l'.next.1 with kind := k }) kept
    refine ⟨l'.next.2, rest_next_of_eof kind, ?_⟩
    rw [piece_of_true, stays, List.length_eq_zero_iff.1 size]
    rw [atEnd, stays]
    exact endsPiece_of_eof ended
  | cons t ts ih =>
    obtain ⟨first, rest⟩ := next_of_tokens h
    obtain ⟨first', rest'⟩ := next_of_tokens h'
    rcases piece_cases taken with ⟨-, rfl⟩ | ⟨inner, q, behind, rfl⟩
    · cases size
    · have kind := (next_inner inner).1
      rw [first] at kind
      have step : l'.nextIn blocks = l.nextIn blocks := by
        rw [nextIn, nextIn, first, first', dialect]
      have ends : l'.atEnd limit blocks start = .ok false := by
        rw [atEnd, step]
        exact inner
      obtain ⟨after, nothing, found⟩ := ih (by rw [lexicon_next, lexicon_next, dialect])
        (rest kind) (rest' kind) behind (Nat.succ.inj size)
      refine ⟨after, nothing, ?_⟩
      rw [piece_of_false ends, step, found]
      rfl

end Lexer

/-! ## The text of a piece without the blanks at its end -/

/-- The end of the input, at another place and behind another gap. -/
def Token.endAt (gap : List Char) (pos : Position) (t : Token) : Token :=
  if t.kind = .eof then { t with gap, pos } else t

instance (gap : List Char) (pos : Position) : Moves (endAt gap pos) where
  kind t := by unfold endAt; split <;> rfl
  lexeme t := by unfold endAt; split <;> rfl

theorem Token.endAt_of_ne_eof {gap : List Char} {pos : Position} {t : Token} (h : t.kind ≠ .eof) :
    t.endAt gap pos = t := if_neg h

namespace Piece

variable {p : Piece} {first : Token} {rest : List Token}

theorem text_of_tokens (h : p.tokens = first :: rest) :
    p.text = first.lexeme ++ rest.flatMap source ++ p.terminator.gap := by
  rw [text, h]

theorem lead_of_tokens (h : p.tokens = first :: rest) : p.lead = first := by
  rw [lead, h, List.headD_cons]

end Piece

namespace Lexer

variable {d : Dialect} {text : List Char} {pos : Position} {limit : Nat} {blocks : BlockState}
  {start : Option Nat} {p : Piece} {first : Token} {rest : List Token}

/-- The tokens of a piece are read again from the text of the piece. -/
theorem innerTokens_piece
    (h : (Lexer.ofText { dialect := d } text pos).piece limit blocks start = .ok p)
    (tokens : p.tokens = first :: rest) :
    p.innerTokens d = (first.flush :: rest).map outsideBlocks ++
      [{ kind := .eof, gap := p.terminator.gap, lexeme := [], pos := p.terminator.pos }] := by
  obtain ⟨⟨more, spelled⟩, inner⟩ := piece_tokens rfl h
  rw [tokens, List.map_cons] at spelled inner
  have sources : (rest.map outsideBlocks).flatMap source = rest.flatMap source := by
    rw [List.flatMap_map]
    rfl
  have front := tokens_settled_onto rfl spelled inner (piece_terminator h)
  have place : (Lexer.ofText { dialect := d } text pos).settled.pos = first.pos := by
    have begins := congrArg Token.pos (next_of_tokens spelled).1
    exact (pos_next _).symm.trans begins
  have here : Lexer.ofText { dialect := d } p.text p.lead.pos =
      (Lexer.ofText { dialect := d } text pos).settled.onto
        (first.lexeme ++ (rest.map outsideBlocks).flatMap source ++ p.terminator.gap) := by
    rw [Piece.text_of_tokens tokens, Piece.lead_of_tokens tokens, sources, onto, place]
    rfl
  exact (congrArg Lexer.tokens here).trans front

/-- A text with the tokens of a piece up to its end is one piece, which has the same tokens. -/
theorem piece_of_innerTokens {front : List Char} {eof : Token}
    (h : (Lexer.ofText { dialect := d } text pos).piece limit blocks start = .ok p)
    (tokens : p.tokens = first :: rest) (ended : eof.kind = .eof)
    (inner : (Lexer.ofText { dialect := d } front first.pos).tokens =
      (first.flush :: rest).map outsideBlocks ++ [eof]) :
    ∃ after : Lexer, after.rest = [] ∧ (Lexer.ofText { dialect := d } front first.pos).piece
      limit blocks start = .ok ⟨first.flush :: rest, eof, after⟩ := by
  obtain ⟨⟨more, spelled⟩, -⟩ := piece_tokens rfl h
  rw [tokens, List.map_cons] at spelled
  have settled : (Lexer.ofText { dialect := d } text pos).settled.tokens =
      (first.flush :: rest).map outsideBlocks ++ p.terminator :: more := tokens_settled spelled
  have taken := piece_settled h tokens
  exact piece_of_tokens (by rfl) settled inner ended taken (by rw [List.length_map])

end Lexer

namespace Fragment

/-- Blanks at the end of the input, and its place, have no part in the fragments. -/
theorem ofTokens_endAt {gap b : List Char} (hb : AllBlank b) (place place' : Position)
    (copied : List Char) (held : Option (Literal × List Char)) (ts : List Token) :
    ofTokens copied held (ts ++ [{ kind := .eof, gap := gap ++ b, lexeme := [], pos := place }]) =
      ofTokens copied held (ts ++ [{ kind := .eof, gap, lexeme := [], pos := place' }]) := by
  fun_induction ofTokens copied held ts with
  | case1 copied held =>
    have cut := trimEnd_of_allBlank hb (copied ++ (held.map (·.2)).getD [] ++ gap)
    cases held <;> simp_all [ofTokens, param?, literal?]
  | case2 copied held t ts e error => simp [ofTokens, error]
  | case3 copied t ts p l lexeme sound param ih =>
    rw [Option.map_some] at param
    simp [ofTokens, param, ih]
  | case4 copied t ts p sound param ih =>
    rw [Option.map_none] at param
    simp [ofTokens, param, ih]
  | case5 copied t ts held copied' l sound literal noParam ih =>
    simpa [ofTokens, literal, noParam, copied'] using ih
  | case6 copied t ts held copied' sound noLiteral noParam ih =>
    simpa [ofTokens, noLiteral, noParam, copied'] using ih

end Fragment

theorem ParamTable.ofTokens_append_eof {ts : List Token} {eof : Token} (h : eof.kind = .eof) :
    ofTokens (ts ++ [eof]) = ofTokens ts := by
  simp [ofTokens, ParamSpec.ofToken?, h]

namespace Piece

variable {s : ParseSettings} {p q : Piece} {st : Statement}

/-- A piece with the same tokens up to the end of its text is read as the same statement. -/
theorem read_of_innerTokens {ts : List Token} {gap b : List Char} {place place' : Position}
    (hp : p.innerTokens s.dialect =
      ts ++ [{ kind := .eof, gap := gap ++ b, lexeme := [], pos := place }])
    (hq : q.innerTokens s.dialect = ts ++ [{ kind := .eof, gap, lexeme := [], pos := place' }])
    (hb : AllBlank b) (inner : ∀ t ∈ ts, t.kind ≠ .eof) (lead : q.lead.kind = p.lead.kind)
    (text : trimEnd q.text = trimEnd p.text) (read : p.read s = .ok st) : q.read s = .ok st := by
  obtain ⟨body, check, strict, sql, params⟩ := read_eq_ok_iff.1 read
  have moved : q.innerTokens s.dialect = (p.innerTokens s.dialect).map (endAt gap place') := by
    have same : ts.map (endAt gap place') = ts :=
      (List.map_congr_left fun t ht => endAt_of_ne_eof (inner t ht)).trans ts.map_id
    rw [hp, hq, List.map_append, same]
    rfl
  refine read_eq_ok_iff.2 ⟨?_, check, strict, by rw [sql, text], ?_⟩
  · have fragments : Fragment.ofTokens [] none (q.innerTokens s.dialect) =
        Fragment.ofTokens [] none (p.innerTokens s.dialect) := by
      rw [hp, hq]
      exact (Fragment.ofTokens_endAt hb _ _ _ _ _).symm
    unfold Piece.body at body ⊢
    rw [decompose_map moved lead, fragments]
    cases tree : p.decompose s with
    | error e =>
      rw [tree] at body
      cases body
    | ok tree' =>
      rw [tree] at body
      exact body
  · rw [params, hp, hq, ParamTable.ofTokens_append_eof rfl, ParamTable.ofTokens_append_eof rfl]

end Piece

namespace Script

variable {s : ParseSettings} {script : Script} {p : Piece} {st : Statement}

/-- The text of a piece without the blanks at its end is one piece, which is the same statement. -/
theorem piece_trimEnd (plain : script.delimiter = []) (taken : script.piece s = .ok p)
    (full : p.tokens ≠ []) (read : p.read s = .ok st) :
    ∃ q : Piece, (Script.mk [] ⟨trimEnd p.text, p.lead.pos⟩).piece s = .ok q ∧ q.tokens ≠ [] ∧
      q.terminator.kind = .eof ∧ q.after.rest = [] ∧ q.read s = .ok st := by
  obtain ⟨first, rest, tokens⟩ := List.exists_cons_of_ne_nil full
  obtain ⟨delimiter, place⟩ := script
  cases plain
  have lead := Piece.lead_of_tokens tokens
  have inner := Lexer.innerTokens_piece taken tokens
  have sound (t : Token) (ht : t ∈ (first.flush :: rest).map outsideBlocks) :
      t.kind ≠ .eof ∧ ∀ e, t.kind ≠ .error e := by
    have solid := (Lexer.piece_tokens rfl taken).2
    rw [tokens] at solid
    rcases List.mem_cons.1 ht with rfl | ht
    · exact solid first.outsideBlocks List.mem_cons_self
    · exact solid t (List.mem_cons_of_mem _ ht)
  -- The blanks at the end of the text are those at the end of the gap behind the last token.
  obtain ⟨cut, pos, trimmed⟩ := Lexer.tokens_trimEnd rfl inner fun t ht => (sound t ht).2
  obtain ⟨b, blank, gap⟩ := exists_blanks p.terminator.gap
  have trimmed' : (Lexer.ofText { dialect := s.dialect } (trimEnd p.text) first.pos).tokens = _ :=
    lead ▸ trimmed
  obtain ⟨after, nothing, whole⟩ := Lexer.piece_of_innerTokens taken tokens rfl trimmed'
  rw [lead]
  refine ⟨_, whole, List.cons_ne_nil _ _, rfl, nothing, ?_⟩
  generalize hq : Piece.mk (first.flush :: rest) _ after = q
  have text : q.text = trimEnd p.text := by
    have sources : ((first.flush :: rest).map outsideBlocks).flatMap source =
        first.lexeme ++ rest.flatMap source := by
      rw [List.flatMap_map]
      rfl
    rw [← hq, Piece.text_of_tokens rfl]
    exact (congrArg (· ++ trimEnd p.terminator.gap) sources).symm.trans cut.symm
  have leads : q.lead = first.flush := by
    rw [← hq]
    rfl
  have again : q.innerTokens s.dialect = (first.flush :: rest).map outsideBlocks ++
      [{ kind := .eof, gap := trimEnd p.terminator.gap, lexeme := [], pos }] := by
    rw [Piece.innerTokens, text, leads]
    exact lead ▸ trimmed
  rw [gap] at inner
  refine Piece.read_of_innerTokens inner again blank (fun t ht => (sound t ht).1) ?_ ?_ read
  · rw [lead, leads]
    rfl
  · rw [text, trimEnd_trimEnd]

/-- The text of a piece without the blanks at its end, read as a script, is the statement of the
piece and nothing else. -/
theorem next_trimEnd (command : s.dialect.delimiterCommand = false) (plain : script.delimiter = [])
    (taken : script.piece s = .ok p) (full : p.tokens ≠ []) (read : p.read s = .ok st) :
    ∃ pos, (Script.ofText [] (trimEnd p.text)).next s = (.ok (some st), ⟨[], ⟨[], pos⟩⟩) := by
  obtain ⟨q, whole, nonempty, -, nothing, again⟩ := piece_trimEnd plain taken full read
  have here : (Script.ofText [] (trimEnd p.text)).shift p.lead.pos =
      ⟨[], ⟨trimEnd p.text, p.lead.pos⟩⟩ := by
    rw [shift, ofText, Place.shift, Place.ofText, Position.shift_start]
  rw [← here, ← settle_of_no_command command ((Script.ofText _ _).shift _)] at whole
  have there := next_of_some (nextPiece_of_tokens whole nonempty)
  rw [settle_of_no_command command, again] at there
  have moved : ((Script.ofText [] (trimEnd p.text)).shift p.lead.pos |>.next s) = _ :=
    (next_shift Position.counted_start p.lead.pos).1
  rw [there] at moved
  generalize (Script.ofText [] (trimEnd p.text)).next s = outcome at moved ⊢
  obtain ⟨answer, delimiter, left, pos⟩ := outcome
  obtain ⟨found, place⟩ := Prod.mk.inj moved
  obtain rfl : [] = delimiter := congrArg Script.delimiter place
  obtain rfl : [] = left := nothing.symm.trans (congrArg (fun r => r.place.rest) place)
  cases answer with
  | error e => cases found
  | ok statement =>
    cases found
    exact ⟨pos, rfl⟩

end Script

namespace Statement

variable {s : ParseSettings} {text : List Char} {st : Statement}

/-- The text that a statement keeps is read as the same statement, and nothing of it is left. -/
theorem readFirst_sql (command : s.dialect.delimiterCommand = false) (parsed : st.Parsed s [] text) :
    readFirst s [] st.sql.toList = (.ok (st, []), []) := by
  obtain ⟨script, p, taken, full, read, same⟩ := parsed.exists_piece
  obtain ⟨pos, next⟩ := Script.next_trimEnd command (same command) taken full read
  have sql : st.sql.toList = trimEnd p.text := by
    rw [(Piece.read_eq_ok_iff.1 read).2.2.2.1, String.toList_ofList]
  rw [sql, readFirst_of_some (congrArg Prod.fst next), next]
  rfl

/-- The statement `x` of the text `x` with a blank behind keeps no blank, and is read from `x`. -/
theorem readFirst_sql_name :
    (Statement.mk "x" (.verbatim [.text "x"]) ⟨[], []⟩).Parsed {} [] ['x', ' '] ∧
      readFirst {} [] ['x'] = (.ok (⟨"x", .verbatim [.text "x"], ⟨[], []⟩⟩, []), []) := by
  have name : (Lexer.ofText { dialect := .standard } ['x', ' '] .start).next =
      (⟨.identifier "x", [], ['x'], ⟨0, 1, 1⟩⟩,
        ⟨{ dialect := .standard }, [' '], ⟨1, 1, 2⟩, 0⟩) := by
    have scanned : Token.scan { dialect := .standard } 0 'x' [' '] = (.identifier "x", 0) := by
      decide +kernel
    exact (Lexer.next_of_scan rfl (by exact scanned)).trans rfl
  have stop : (Lexer.mk { dialect := .standard } [' '] ⟨1, 1, 2⟩ 0).piece 1048576
      ⟨0, false, false, false, .none⟩ (some 0) =
        .ok ⟨[], ⟨.eof, [' '], [], ⟨2, 1, 3⟩⟩, ⟨{ dialect := .standard }, [], ⟨2, 1, 3⟩, 0⟩⟩ := by
    rw [Lexer.piece_of_true rfl]
    rfl
  have piece : (Lexer.ofText { dialect := .standard } ['x', ' '] .start).piece 1048576 .start none =
      .ok ⟨[⟨.identifier "x", [], ['x'], ⟨0, 1, 1⟩⟩], ⟨.eof, [' '], [], ⟨2, 1, 3⟩⟩,
        ⟨{ dialect := .standard }, [], ⟨2, 1, 3⟩, 0⟩⟩ := by
    rw [Lexer.piece_of_false (by rw [Lexer.atEnd, Lexer.nextIn, name]; rfl), Lexer.nextIn, name]
    exact congrArg (Except.map _) stop
  have tokens : (Lexer.ofText { dialect := .standard } ['x', ' '] .start).tokens =
      [⟨.identifier "x", [], ['x'], ⟨0, 1, 1⟩⟩, ⟨.eof, [' '], [], ⟨2, 1, 3⟩⟩] := by
    rw [Lexer.tokens_of_ne_eof (by rw [name]; simp), name, Lexer.tokens_of_eof rfl]
    rfl
  have whole : Piece.read {} ⟨[⟨.identifier "x", [], ['x'], ⟨0, 1, 1⟩⟩],
      ⟨.eof, [' '], [], ⟨2, 1, 3⟩⟩, ⟨{ dialect := .standard }, [], ⟨2, 1, 3⟩, 0⟩⟩ =
        .ok ⟨"x", .verbatim [.text "x"], ⟨[], []⟩⟩ := by
    generalize hp : (Piece.mk _ _ _) = p
    have inner : p.innerTokens ({} : ParseSettings).dialect =
        [⟨.identifier "x", [], ['x'], ⟨0, 1, 1⟩⟩, ⟨.eof, [' '], [], ⟨2, 1, 3⟩⟩] := by
      rw [← hp]
      exact tokens
    unfold Piece.read Piece.body
    rw [inner, ← hp]
    rfl
  have found : (Script.ofText [] ['x', ' ']).nextPiece {} = _ :=
    Script.nextPiece_of_tokens piece (by simp)
  have parsed : (Statement.mk "x" (.verbatim [.text "x"]) ⟨[], []⟩).Parsed {} [] ['x', ' '] := by
    refine .inl ⟨[], ?_⟩
    rw [readFirst, Script.next_of_some found, whole]
    rfl
  exact ⟨parsed, readFirst_sql rfl parsed⟩

end Statement

end BoundSql
