import BoundSql.Proofs.Script.Piece
import BoundSql.Proofs.Token.Reread

/-!
# What follows a statement

A statement that a semicolon ends does not depend on the text behind the semicolon, and reading it
leaves just that text.
-/

namespace BoundSql

open Text Token

namespace Lexer

variable {l : Lexer} {limit : Nat} {blocks : BlockState} {start : Option Nat} {p : Piece}

/-- A semicolon is the same token whatever follows it. -/
theorem next_onto_semicolon (hlx : l.lexicon.delimiter = [])
    (h : l.next.1.kind = .punct .semicolon) :
    l.rest = l.gap ++ ';' :: l.next.2.rest ∧ l.next.1.lexeme = [';'] ∧
      ∀ x, (l.onto (l.gap ++ ';' :: x)).next = (l.next.1, l.next.2.onto x) := by
  obtain ⟨c, cs, ahead⟩ := List.exists_cons_of_ne_nil (ahead_ne_nil (l := l) (by simp [h]))
  have next := next_of_ahead_cons ahead
  obtain ⟨rfl, -⟩ : c = ';' ∧ (scan l.lexicon l.ordinal c cs).2 = 0 := by
    rw [next] at h
    exact scan_semicolon hlx h
  rw [scan_of_semicolon hlx] at next
  have text : l.rest = l.gap ++ ';' :: cs := by rw [← l.gap_append_ahead, ahead]
  refine ⟨by rw [next]; exact text, by rw [next]; rfl, fun x => ?_⟩
  have counted : Token.gapLength l.lexicon.dialect.hashComments 0 (l.gap ++ ';' :: cs) =
      l.gap.length := by
    rw [← text, length_gap]
    rfl
  have length : (l.onto (l.gap ++ ';' :: x)).gapLength = l.gap.length := by
    have stop : Ends (';' :: cs) := ends_cons (by decide) cs
    have replaces : Replaces (';' :: x) (';' :: cs) := .inr rfl
    exact (gapLength_replace stop.breaks replaces (Nat.le_of_eq counted) (.inr counted)).trans counted
  have gapTail : (l.onto (l.gap ++ ';' :: x)).gap = l.gap := by
    rw [Lexer.gap, length]
    exact List.take_left
  have aheadTail : (l.onto (l.gap ++ ';' :: x)).ahead = ';' :: x := by
    rw [Lexer.ahead, length]
    exact List.drop_left
  have placeTail : (l.onto (l.gap ++ ';' :: x)).tokenPos = l.tokenPos := by
    rw [tokenPos, gapTail]
    rfl
  have lexicon : (l.onto (l.gap ++ ';' :: x)).lexicon = l.lexicon := rfl
  rw [next_of_ahead_cons aheadTail, lexicon, scan_of_semicolon hlx, next]
  simp only [cut, gapTail, placeTail]
  rfl

/-- What stands behind the semicolon that ends a piece has no part in the piece. -/
theorem piece_onto (hlx : l.lexicon.delimiter = []) (h : l.piece limit blocks start = .ok p)
    (ended : p.terminator.kind = .punct .semicolon) :
    ∃ read, l.rest = read ++ ';' :: p.after.rest ∧ p.terminator.pos = l.pos.after read ∧
      p.terminator.lexeme = [';'] ∧ p.after.pos = l.pos.after (read ++ [';']) ∧
      ∀ x, (l.onto (read ++ ';' :: x)).piece limit blocks start =
        .ok { p with after := p.after.onto x } := by
  induction hn : l.rest.length using Nat.strongRecOn generalizing l blocks start p with
  | ind n ih =>
    rcases piece_cases h with ⟨ends, rfl⟩ | ⟨inner, q, rest, rfl⟩
    · obtain ⟨text, lexeme, next⟩ := next_onto_semicolon hlx (next_semicolon ended)
      have behind : l.next.2.pos = l.pos.after (l.gap ++ [';']) := by
        rw [pos_after_next, source, gap_next, lexeme]
      refine ⟨l.gap, text, pos_next l, lexeme, behind, fun x => ?_⟩
      have same : (l.onto (l.gap ++ ';' :: x)).nextIn blocks = l.nextIn blocks := by
        rw [nextIn, next]
        rfl
      rw [piece_of_true (by rw [atEnd, same]; exact ends), same, next]
    · obtain ⟨hkind, sound⟩ := next_inner inner
      obtain ⟨read, text, place, lexeme, behind, again⟩ :=
        ih _ (hn ▸ length_rest_next_lt hkind) (by rw [lexicon_next, hlx]) rest ended rfl
      have whole : l.rest = l.next.1.source ++ read ++ ';' :: q.after.rest := by
        rw [List.append_assoc, ← text, source_next_append]
      refine ⟨l.next.1.source ++ read, whole, ?_, lexeme, ?_, fun x => ?_⟩
      · rw [Position.after_append, ← pos_after_next]
        exact place
      · rw [List.append_assoc, Position.after_append, ← pos_after_next]
        exact behind
      · have stop (cs : List Char) : Ends (';' :: cs) := ends_cons (by decide) cs
        obtain ⟨-, next⟩ := next_onto hlx (stop _).breaks (stop x) whole sound hkind (by simp)
        rw [List.drop_left] at next
        have same : (l.onto (l.next.1.source ++ read ++ ';' :: x)).nextIn blocks =
            l.nextIn blocks := by
          rw [nextIn, next]
          rfl
        rw [piece_of_false (by rw [atEnd, same]; exact inner), same, next, again]
        rfl

end Lexer

namespace Script

variable {s : ParseSettings} {script : Script} {p : Piece}

/-- The script with another text at its place. -/
def onto (script : Script) (cs : List Char) : Script :=
  { script with place := { script.place with rest := cs } }

theorem settle_of_no_command (command : s.dialect.delimiterCommand = false) (script : Script) :
    script.settle s.dialect = script := by
  simp [settle, command]

/-- What stands behind the semicolon that ends the next piece has no part in the piece. -/
theorem nextPiece_onto (command : s.dialect.delimiterCommand = false)
    (semicolon : script.delimiter = []) (h : (script.nextPiece s).1 = .ok (some p))
    (ended : p.terminator.kind = .punct .semicolon) :
    ∃ read, script.place.rest = read ++ ';' :: p.after.rest ∧
      p.terminator.pos = script.place.pos.after read ∧ p.terminator.lexeme = [';'] ∧
      ∀ x, (script.onto (read ++ ';' :: x)).nextPiece s =
        (.ok (some { p with after := p.after.onto x }),
          { script with place := ⟨x, p.after.pos⟩ }) := by
  have settled (script : Script) : script.settle s.dialect = script :=
    settle_of_no_command command script
  fun_induction nextPiece s script with
  | case1 script e failed => cases h
  | case2 script q found empty ih =>
    rw [settled] at found ih h
    have separator := (Lexer.piece_terminator found).resolve_left empty.2
    obtain ⟨front, text, -, -, here, again⟩ := Lexer.piece_onto semicolon found separator
    obtain ⟨read, behind, place, lexeme, next⟩ := ih semicolon h
    refine ⟨front ++ ';' :: read, ?_, ?_, lexeme, fun x => ?_⟩
    · rw [List.append_assoc, List.cons_append, ← behind]
      exact text
    · have split : front ++ ';' :: read = front ++ [';'] ++ read := by simp
      rw [split, Position.after_append]
      exact here ▸ place
    · have passed : (script.onto (front ++ ';' :: (read ++ ';' :: x))).piece s =
          .ok { q with after := q.after.onto (read ++ ';' :: x) } := again _
      rw [List.append_assoc, List.cons_append]
      rw [← settled (script.onto _)] at passed
      exact (nextPiece_of_empty passed empty.1 empty.2).trans (by rw [settled]; exact next x)
  | case3 script q found full =>
    rw [settled] at found
    have tokens : q.tokens ≠ [] ∧ q = p := by
      cases nonempty : q.tokens with
      | nil => simp [nonempty] at h
      | cons t ts =>
        refine ⟨List.cons_ne_nil t ts, ?_⟩
        simpa [nonempty] using h
    obtain ⟨nonempty, rfl⟩ := tokens
    obtain ⟨read, text, place, lexeme, -, again⟩ := Lexer.piece_onto semicolon found ended
    refine ⟨read, text, place, lexeme, fun x => ?_⟩
    have taken : (script.onto (read ++ ';' :: x)).piece s =
        .ok { q with after := q.after.onto x } := again x
    rw [← settled (script.onto _)] at taken
    exact (nextPiece_of_tokens taken nonempty).trans (by rw [settled]; rfl)

end Script

/-- A statement that a semicolon ends does not depend on what follows the semicolon. -/
theorem Statement.readFirst_append {s : ParseSettings} {t rest : List Char} {st : Statement}
    {p : Piece} (command : s.dialect.delimiterCommand = false)
    (read : (readFirst s [] t).1 = .ok (st, rest))
    (found : ((Script.ofText [] t).nextPiece s).1 = .ok (some p))
    (ended : p.terminator.kind = .punct .semicolon) (x : List Char) :
    readFirst s [] (slice t 0 p.terminator.span.stop ++ x) = (.ok (st, trimStart x), []) := by
  obtain ⟨front, text, place, lexeme, again⟩ := Script.nextPiece_onto command rfl found ended
  have front_slice : slice t 0 p.terminator.span.stop = front ++ [';'] := by
    have whole : [] ++ (front ++ [';']) ++ p.after.rest = t := by
      rw [List.nil_append, List.append_assoc]
      exact text.symm
    have stop : p.terminator.span.stop = byteLength ([] ++ (front ++ [';'])) := by
      simp [Token.span, place, lexeme, Position.offset_after, Script.ofText, Place.ofText,
        Position.start]
    have part := slice_append [] (front ++ [';']) p.after.rest
    rw [whole, ← stop] at part
    exact part
  have cut : slice t 0 p.terminator.span.stop ++ x = front ++ ';' :: x := by
    rw [front_slice, List.append_assoc]
    rfl
  have next : (Script.ofText [] (slice t 0 p.terminator.span.stop ++ x)).nextPiece s =
      (.ok (some { p with after := p.after.onto x }), ⟨[], ⟨x, p.after.pos⟩⟩) := by
    rw [cut]
    exact again x
  have statement : p.read s = .ok st := by
    rw [readFirst, Script.next_of_some (Prod.ext found rfl)] at read
    cases outcome : p.read s with
    | error e => simp [outcome, Except.map] at read
    | ok st' =>
      simp only [outcome, Except.map, Except.ok.injEq, Prod.mk.injEq] at read
      rw [read.1]
  have same : ({ p with after := p.after.onto x } : Piece).read s = .ok st := statement
  rw [readFirst, Script.next_of_some next, same]
  rfl

/-- The statement `x` is read from `x;y` and from `x; z` alike. -/
theorem Statement.readFirst_append_name :
    ∃ p : Piece, ((Script.ofText [] ['x', ';', 'y']).nextPiece {}).1 = .ok (some p) ∧
      p.terminator.kind = .punct .semicolon ∧
      readFirst {} [] ['x', ';', 'y'] =
        (.ok (⟨"x", .verbatim [.text "x"], ⟨[], []⟩⟩, ['y']), []) ∧
      readFirst {} [] (slice ['x', ';', 'y'] 0 p.terminator.span.stop ++ [' ', 'z']) =
        (.ok (⟨"x", .verbatim [.text "x"], ⟨[], []⟩⟩, ['z']), []) := by
  have name : (Lexer.ofText { dialect := .standard } ['x', ';', 'y'] .start).next =
      (⟨.identifier "x", [], ['x'], ⟨0, 1, 1⟩⟩,
        ⟨{ dialect := .standard }, [';', 'y'], ⟨1, 1, 2⟩, 0⟩) := by
    have scanned : Token.scan { dialect := .standard } 0 'x' [';', 'y'] = (.identifier "x", 0) := by
      decide +kernel
    exact (Lexer.next_of_scan rfl (by exact scanned)).trans rfl
  have semicolon : (Lexer.mk { dialect := .standard } [';', 'y'] ⟨1, 1, 2⟩ 0).next =
      (⟨.punct .semicolon, [], [';'], ⟨1, 1, 2⟩⟩,
        ⟨{ dialect := .standard }, ['y'], ⟨2, 1, 3⟩, 0⟩) := rfl
  have stop : (Lexer.mk { dialect := .standard } [';', 'y'] ⟨1, 1, 2⟩ 0).piece 1048576
      ⟨0, false, false, false, .none⟩ (some 0) =
        .ok ⟨[], ⟨.punct .semicolon, [], [';'], ⟨1, 1, 2⟩⟩,
          ⟨{ dialect := .standard }, ['y'], ⟨2, 1, 3⟩, 0⟩⟩ := by
    rw [Lexer.piece_of_true (by rw [Lexer.atEnd, Lexer.nextIn, semicolon]; rfl), Lexer.nextIn,
      semicolon]
    rfl
  have piece : (Lexer.ofText { dialect := .standard } ['x', ';', 'y'] .start).piece 1048576 .start
      none = .ok ⟨[⟨.identifier "x", [], ['x'], ⟨0, 1, 1⟩⟩],
        ⟨.punct .semicolon, [], [';'], ⟨1, 1, 2⟩⟩,
          ⟨{ dialect := .standard }, ['y'], ⟨2, 1, 3⟩, 0⟩⟩ := by
    rw [Lexer.piece_of_false (by rw [Lexer.atEnd, Lexer.nextIn, name]; rfl), Lexer.nextIn, name]
    exact congrArg (Except.map _) stop
  have found : (Script.ofText [] ['x', ';', 'y']).nextPiece {} = _ :=
    Script.nextPiece_of_tokens piece (by simp)
  have read : readFirst {} [] ['x', ';', 'y'] =
      (.ok (⟨"x", .verbatim [.text "x"], ⟨[], []⟩⟩, ['y']), []) := by
    have alone : (Lexer.ofText { dialect := .standard } ['x'] .start).next =
        (⟨.identifier "x", [], ['x'], ⟨0, 1, 1⟩⟩, ⟨{ dialect := .standard }, [], ⟨1, 1, 2⟩, 0⟩) := by
      have scanned : Token.scan { dialect := .standard } 0 'x' [] = (.identifier "x", 0) := by
        decide +kernel
      exact (Lexer.next_of_scan rfl (by exact scanned)).trans rfl
    have tokens : (Lexer.ofText { dialect := .standard } ['x'] .start).tokens =
        [⟨.identifier "x", [], ['x'], ⟨0, 1, 1⟩⟩, ⟨.eof, [], [], ⟨1, 1, 2⟩⟩] := by
      rw [Lexer.tokens_of_ne_eof (by rw [alone]; simp), alone, Lexer.tokens_of_eof rfl]
      rfl
    have whole : Piece.read {} ⟨[⟨.identifier "x", [], ['x'], ⟨0, 1, 1⟩⟩],
        ⟨.punct .semicolon, [], [';'], ⟨1, 1, 2⟩⟩, ⟨{ dialect := .standard }, ['y'], ⟨2, 1, 3⟩, 0⟩⟩ =
          .ok ⟨"x", .verbatim [.text "x"], ⟨[], []⟩⟩ := by
      generalize hp : (Piece.mk _ _ _) = p
      have inner : p.innerTokens ({} : ParseSettings).dialect =
          [⟨.identifier "x", [], ['x'], ⟨0, 1, 1⟩⟩, ⟨.eof, [], [], ⟨1, 1, 2⟩⟩] := by
        rw [← hp]
        exact tokens
      unfold Piece.read Piece.body
      rw [inner, ← hp]
      rfl
    rw [readFirst, Script.next_of_some found, whole]
    rfl
  exact ⟨_, congrArg Prod.fst found, rfl, read,
    readFirst_append rfl (congrArg Prod.fst read) (congrArg Prod.fst found) rfl [' ', 'z']⟩

end BoundSql
