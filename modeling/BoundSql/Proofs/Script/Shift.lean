import BoundSql.Proofs.Grammar.Invariance
import BoundSql.Proofs.Script.Piece

/-!
# A script inside another text

A script that is read where it stands in a longer text gives the same statements as when it is read
by itself, and errors at the same places, seen from the longer text. `Position.shift` says what that
means for a place.
-/

namespace BoundSql

open Text Token

namespace Text.Position

variable {base p : Position}

/-- The place `p` of a text that begins at `base` of a longer text, seen from the latter. -/
def shift (base p : Position) : Position :=
  { offset := base.offset + p.offset
    line := base.line + (p.line - 1)
    col := if p.line = 1 then base.col + (p.col - 1) else p.col }

@[simp] theorem shift_start (base : Position) : base.shift start = base := rfl

/-- Lines and columns are counted from one. -/
structure Counted (p : Position) : Prop where
  line : 0 < p.line
  col : 0 < p.col

theorem counted_start : start.Counted := ⟨Nat.one_pos, Nat.one_pos⟩

theorem Counted.step (h : p.Counted) (c : Char) : (p.step c).Counted := by
  unfold Position.step
  split
  · exact ⟨Nat.succ_pos _, Nat.one_pos⟩
  · exact ⟨h.line, Nat.succ_pos _⟩

theorem Counted.after (h : p.Counted) (cs : List Char) : (p.after cs).Counted := by
  induction cs generalizing p with
  | nil => exact h
  | cons c cs ih => exact ih (h.step c)

theorem Counted.shift_step (h : p.Counted) (base : Position) (c : Char) :
    base.shift (p.step c) = (base.shift p).step c := by
  have line := h.line
  have col := h.col
  unfold Position.step
  split
  · simp only [shift, mk.injEq]
    refine ⟨by omega, by omega, ?_⟩
    rw [if_neg (by omega)]
  · simp only [shift, mk.injEq, true_and]
    refine ⟨by omega, ?_⟩
    split <;> omega

/-- Seen from the longer text, stepping over a text is the same. -/
theorem Counted.shift_after (h : p.Counted) (base : Position) (cs : List Char) :
    base.shift (p.after cs) = (base.shift p).after cs := by
  induction cs generalizing p with
  | nil => rfl
  | cons c cs ih =>
    have tail := ih (h.step c)
    rw [h.shift_step] at tail
    exact tail

end Text.Position

/-! ## Tokens -/

/-- The token seen from a longer text. -/
def Token.shift (base : Position) (t : Token) : Token := { t with pos := base.shift t.pos }

instance (base : Position) : Moves (Token.shift base) := ⟨fun _ => rfl, fun _ => rfl⟩

theorem Token.flatMap_source_shift (base : Position) (ts : List Token) :
    (ts.map (Token.shift base)).flatMap source = ts.flatMap source := by
  rw [List.flatMap_map]
  rfl

namespace Lexer

variable {l : Lexer} {limit : Nat} {blocks : BlockState} {start : Option Nat} {p : Piece}

/-- The lexer seen from a longer text. -/
def shift (base : Position) (l : Lexer) : Lexer := { l with pos := base.shift l.pos }

theorem next_shift (h : l.pos.Counted) (base : Position) :
    (l.shift base).next = (l.next.1.shift base, l.next.2.shift base) := by
  have place : (l.shift base).tokenPos = base.shift l.tokenPos := (h.shift_after base _).symm
  have ahead : (l.shift base).ahead = l.ahead := rfl
  rw [next, next, ahead]
  cases l.ahead with
  | nil =>
    rw [place]
    rfl
  | cons c cs =>
    have behind (lexeme : List Char) : (l.shift base).tokenPos.after lexeme =
        base.shift (l.tokenPos.after lexeme) := by
      rw [place]
      exact ((h.after l.gap).shift_after base lexeme).symm
    dsimp only
    rw [cut, behind, place]
    rfl

theorem counted_next (h : l.pos.Counted) : l.next.1.pos.Counted ∧ l.next.2.pos.Counted := by
  rw [pos_next, pos_after_next]
  exact ⟨h.after _, h.after _⟩

/-- The tokens seen from a longer text. -/
theorem tokens_shift (h : l.pos.Counted) (base : Position) :
    (l.shift base).tokens = l.tokens.map (Token.shift base) := by
  induction hn : l.rest.length using Nat.strongRecOn generalizing l with
  | ind n ih =>
    have next := next_shift h base
    by_cases kind : l.next.1.kind = .eof
    · rw [tokens_of_eof kind, tokens_of_eof (by rw [next]; exact kind), next]
      rfl
    · have behind := ih _ (hn ▸ length_rest_next_lt kind) (counted_next h).2 rfl
      rw [tokens_of_ne_eof kind, tokens_of_ne_eof (by rw [next]; exact kind), next, behind]
      rfl

end Lexer

/-! ## Pieces -/

/-- The error seen from a longer text. -/
def SqlError.shift (base : Position) : SqlError → SqlError
  | lexical e pos => lexical e (base.shift pos)
  | grammar e => grammar (e.map (Token.shift base))
  | tooLong limit pos => tooLong limit (base.shift pos)
  | e => e

/-- The piece seen from a longer text. -/
def Piece.shift (base : Position) (p : Piece) : Piece :=
  { tokens := p.tokens.map (Token.shift base)
    terminator := p.terminator.shift base
    after := p.after.shift base }

/-- Whether a token ends a piece depends on how far the two lie apart. -/
theorem Token.endsPiece_shift (limit first : Nat) (base : Position) (t : Token) :
    (t.shift base).endsPiece limit (base.offset + first) =
      (t.endsPiece limit first).mapError (SqlError.shift base) := by
  have reach : (t.shift base).span.stop - (base.offset + first) = t.span.stop - first := by
    simp only [span, shift, Position.shift]
    omega
  have kind : (t.shift base).kind = t.kind := rfl
  rw [endsPiece, endsPiece, kind, reach]
  split
  · rfl
  · rfl
  · rfl
  · split <;> rfl

namespace Lexer

variable {l : Lexer} {limit : Nat} {blocks : BlockState} {start : Option Nat} {p : Piece}

theorem nextIn_shift (h : l.pos.Counted) (base : Position) (blocks : BlockState) :
    (l.shift base).nextIn blocks = ((l.nextIn blocks).1, (l.nextIn blocks).2.shift base) := by
  rw [nextIn, next_shift h]
  rfl

theorem piece_shift (h : l.pos.Counted) (base : Position) :
    (l.shift base).piece limit blocks (start.map (base.offset + ·)) =
      ((l.piece limit blocks start).mapError (SqlError.shift base)).map (Piece.shift base) := by
  induction hn : l.rest.length using Nat.strongRecOn generalizing l blocks start with
  | ind n ih =>
    have step := nextIn_shift h base blocks
    have first : (start.map (base.offset + ·)).getD ((l.nextIn blocks).2.shift base).pos.offset =
        base.offset + start.getD (l.nextIn blocks).2.pos.offset := by
      cases start <;> rfl
    have ends : (l.shift base).atEnd limit blocks (start.map (base.offset + ·)) =
        (l.atEnd limit blocks start).mapError (SqlError.shift base) := by
      rw [atEnd, step, first]
      exact endsPiece_shift _ _ _ _
    cases ended : l.atEnd limit blocks start with
    | error e =>
      rw [ended] at ends
      rw [piece_of_error ended, piece_of_error ends]
      rfl
    | ok done =>
      rw [ended] at ends
      cases done with
      | true =>
        rw [piece_of_true ended, piece_of_true ends, step, next_shift h]
        rfl
      | false =>
        have inner := next_inner ended
        have behind (blocks : BlockState) (first : Nat) :
            (l.next.2.shift base).piece limit blocks ((some first).map (base.offset + ·)) =
              ((l.next.2.piece limit blocks (some first)).mapError (SqlError.shift base)).map
                (Piece.shift base) :=
          ih _ (hn ▸ length_rest_next_lt inner.1) (counted_next h).2 rfl
        rw [piece_of_false ended, piece_of_false ends, step, next_shift h, first]
        refine (congrArg (Except.map _) (behind _ _)).trans ?_
        cases l.next.2.piece limit _ _ with
        | error e => rfl
        | ok q => rfl

/-- The places of a piece are counted as those of its script are. -/
theorem counted_piece (h : l.pos.Counted) (found : l.piece limit blocks start = .ok p) :
    p.lead.pos.Counted ∧ p.after.pos.Counted := by
  induction hn : l.rest.length using Nat.strongRecOn generalizing l blocks start p with
  | ind n ih =>
    rcases piece_cases found with ⟨-, rfl⟩ | ⟨inner, q, rest, rfl⟩
    · exact counted_next h
    · exact ⟨(counted_next h).1,
        (ih _ (hn ▸ length_rest_next_lt (next_inner inner).1) (counted_next h).2 rest rfl).2⟩

end Lexer

namespace Piece

variable {p : Piece}

theorem text_shift (base : Position) (p : Piece) : (p.shift base).text = p.text := by
  obtain ⟨tokens, terminator, after⟩ := p
  cases tokens with
  | nil => rfl
  | cons t ts =>
    change t.lexeme ++ (ts.map (Token.shift base)).flatMap source ++ terminator.gap = _
    rw [flatMap_source_shift]
    rfl

theorem lead_shift (base : Position) (p : Piece) : (p.shift base).lead = p.lead.shift base := by
  obtain ⟨tokens, terminator, after⟩ := p
  cases tokens <;> rfl

theorem innerTokens_shift (d : Dialect) (h : p.lead.pos.Counted) (base : Position) :
    (p.shift base).innerTokens d = (p.innerTokens d).map (Token.shift base) := by
  have inner := Lexer.tokens_shift (l := Lexer.ofText { dialect := d } p.text p.lead.pos) h base
  rw [innerTokens, text_shift, lead_shift]
  exact inner

end Piece

theorem Fragment.ofTokens_shift (base : Position) (copied : List Char)
    (held : Option (Literal × List Char)) (ts : List Token) :
    ofTokens copied held (ts.map (Token.shift base)) =
      (ofTokens copied held ts).mapError (SqlError.shift base) := by
  have commute {α β : Type} (g : α → β) (x : Except SqlError α) :
      (x.mapError (SqlError.shift base)).map g = (x.map g).mapError (SqlError.shift base) := by
    cases x <;> rfl
  fun_induction ofTokens copied held ts with
  | case1 => rfl
  | case2 copied held t ts e error =>
    simp only [List.map_cons, ofTokens, Token.shift, error]
    rfl
  | case3 copied t ts p l lexeme sound param ih =>
    rw [Option.map_some] at param
    simp [ofTokens, Token.shift, param, commute, ih]
  | case4 copied t ts p sound param ih =>
    rw [Option.map_none] at param
    simp [ofTokens, Token.shift, param, commute, ih]
  | case5 copied t ts held copied' l sound literal noParam ih =>
    simpa [ofTokens, Token.shift, literal, noParam, copied'] using ih
  | case6 copied t ts held copied' sound noLiteral noParam ih =>
    simpa [ofTokens, Token.shift, noLiteral, noParam, copied'] using ih

theorem ParamTable.ofTokens_shift (base : Position) (ts : List Token) :
    ofTokens (ts.map (Token.shift base)) = ofTokens ts := by
  rw [ofTokens, List.filterMap_map]
  rfl

namespace Piece

variable {p : Piece} {s : ParseSettings}

theorem innerTokens_ne_nil (d : Dialect) (p : Piece) : p.innerTokens d ≠ [] := by
  unfold innerTokens
  by_cases kind : (Lexer.ofText { dialect := d } p.text p.lead.pos).next.1.kind = .eof
  · rw [Lexer.tokens_of_eof kind]
    exact List.cons_ne_nil _ _
  · rw [Lexer.tokens_of_ne_eof kind]
    exact List.cons_ne_nil _ _

/-- A piece with its tokens in other places is taken apart the same way. -/
theorem decompose_map {q : Piece} {f : Token → Token} [Moves f]
    (inner : q.innerTokens s.dialect = (p.innerTokens s.dialect).map f)
    (lead : q.lead.kind = p.lead.kind) :
    q.decompose s = (p.decompose s).mapError (ParseError.map f) := by
  have read := Body.ofTokens_map (f := f) s.maxDepth (p.innerTokens_ne_nil s.dialect)
  rw [decompose, decompose, inner, read, lead]
  split
  · cases Body.ofTokens s.maxDepth (p.innerTokens s.dialect) with
    | ok body => rfl
    | error e =>
      have overflow : (e.map f).isOverflow = e.isOverflow := rfl
      change (if !(e.map f).isOverflow && Piece.opensBlock p.lead.kind then _
        else _) = (if !e.isOverflow && Piece.opensBlock p.lead.kind then _ else _ :
          Except ParseError (Option Body)).mapError _
      rw [overflow]
      split <;> rfl
  · rfl

theorem decompose_shift (h : p.lead.pos.Counted) (base : Position) :
    (p.shift base).decompose s = (p.decompose s).mapError (ParseError.map (Token.shift base)) :=
  decompose_map (innerTokens_shift s.dialect h base) (by rw [lead_shift]; rfl)

theorem body_shift (h : p.lead.pos.Counted) (base : Position) :
    (p.shift base).body s = (p.body s).mapError (SqlError.shift base) := by
  rw [body, body, decompose_shift h, innerTokens_shift s.dialect h, Fragment.ofTokens_shift]
  cases p.decompose s with
  | error e => rfl
  | ok tree =>
    cases tree with
    | some body => rfl
    | none =>
      cases Fragment.ofTokens [] none (p.innerTokens s.dialect) with
      | error e => rfl
      | ok parts => rfl

/-- A piece is the same statement wherever it stands, or fails at the same place. -/
theorem read_shift (h : p.lead.pos.Counted) (base : Position) :
    (p.shift base).read s = (p.read s).mapError (SqlError.shift base) := by
  rw [read, read, body_shift h, innerTokens_shift s.dialect h, ParamTable.ofTokens_shift, text_shift]
  cases p.body s with
  | error e => rfl
  | ok body =>
    change (body.check.mapError SqlError.malformed >>= _) =
      (body.check.mapError SqlError.malformed >>= _).mapError _
    cases body.check with
    | error v => rfl
    | ok _ =>
      change (if s.strictTypes then _ else _) = (if s.strictTypes then _ else _ : Except _ _).mapError _
      split
      · split <;> rfl
      · rfl

end Piece

/-! ## Scripts -/

/-- The place seen from a longer text. -/
def Place.shift (base : Position) (p : Place) : Place := { p with pos := base.shift p.pos }

theorem Place.skip_shift {p : Place} (h : p.pos.Counted) (base : Position) (n : Nat) :
    (p.shift base).skip n = (p.skip n).shift base := by
  have stop := h.shift_after base (p.rest.take n)
  rw [skip, skip, shift, shift, stop]

theorem Place.skipDelimiterLines_shift (delimiter : List Char) {p : Place} (h : p.pos.Counted)
    (base : Position) : (p.shift base).skipDelimiterLines delimiter =
      ((p.skipDelimiterLines delimiter).1, (p.skipDelimiterLines delimiter).2.shift base) ∧
        (p.skipDelimiterLines delimiter).2.pos.Counted := by
  fun_induction skipDelimiterLines delimiter p with
  | case1 delimiter pos =>
    refine ⟨?_, h⟩
    rw [shift, skipDelimiterLines]
  | case2 delimiter c cs pos noLine =>
    refine ⟨?_, h⟩
    rw [shift, skipDelimiterLines, noLine]
  | case3 delimiter c cs pos d n line ih =>
    have behind := ih (h.after _)
    rw [← skip_shift h] at behind
    refine ⟨?_, behind.2⟩
    rw [shift, skipDelimiterLines, line]
    exact behind.1

namespace Script

variable {s : ParseSettings} {script : Script}

/-- The script seen from a longer text. -/
def shift (base : Position) (script : Script) : Script :=
  { script with place := script.place.shift base }

theorem settle_shift (d : Dialect) (h : script.place.pos.Counted) (base : Position) :
    (script.shift base).settle d = (script.settle d).shift base ∧
      (script.settle d).place.pos.Counted := by
  have lines := Place.skipDelimiterLines_shift script.delimiter h base
  unfold settle
  split
  · exact ⟨by rw [shift, lines.1]; rfl, lines.2⟩
  · exact ⟨rfl, h⟩

theorem piece_shift (h : script.place.pos.Counted) (base : Position) :
    (script.shift base).piece s =
      ((script.piece s).mapError (SqlError.shift base)).map (Piece.shift base) :=
  @Lexer.piece_shift (Lexer.ofText { dialect := s.dialect, delimiter := script.delimiter }
    script.place.rest script.place.pos) s.maxLength .start none h base

theorem nextPiece_shift (h : script.place.pos.Counted) (base : Position) :
    (script.shift base).nextPiece s =
      (((script.nextPiece s).1.mapError (SqlError.shift base)).map (Option.map (Piece.shift base)),
        (script.nextPiece s).2.shift base) ∧
      (script.nextPiece s).2.place.pos.Counted ∧
      ∀ p, (script.nextPiece s).1 = .ok (some p) → p.lead.pos.Counted := by
  fun_induction nextPiece s script with
  | case1 script e failed =>
    obtain ⟨settled, counted⟩ := settle_shift s.dialect h base
    have piece := piece_shift (s := s) counted base
    rw [← settled, failed] at piece
    exact ⟨by rw [nextPiece_of_error piece, settled]; rfl, counted, fun p found => by cases found⟩
  | case2 script p found empty ih =>
    obtain ⟨settled, counted⟩ := settle_shift s.dialect h base
    have piece := piece_shift (s := s) counted base
    rw [← settled, found] at piece
    have behind := ih (Lexer.counted_piece counted found).2
    have none : (p.shift base).tokens = [] := List.map_eq_nil_iff.2 empty.1
    refine ⟨?_, behind.2⟩
    rw [nextPiece_of_empty piece none empty.2, settled]
    exact behind.1
  | case3 script p found full =>
    obtain ⟨settled, counted⟩ := settle_shift s.dialect h base
    have piece := piece_shift (s := s) counted base
    rw [← settled, found] at piece
    have places := Lexer.counted_piece counted found
    by_cases empty : p.tokens = []
    · have eof : p.terminator.kind = .eof :=
        Decidable.of_not_not fun ended => full ⟨empty, ended⟩
      have none : (p.shift base).tokens = [] := List.map_eq_nil_iff.2 empty
      rw [nextPiece_of_eof piece none eof, settled, empty]
      exact ⟨rfl, places.2, fun q taken => by cases taken⟩
    · have some : (p.shift base).tokens ≠ [] := fun none => empty (List.map_eq_nil_iff.1 none)
      rw [nextPiece_of_tokens piece some, settled]
      rw [if_neg (by simpa using empty)]
      refine ⟨rfl, places.2, fun q taken => ?_⟩
      cases taken
      exact places.1

/-- The next statement of a script is the same wherever the script stands, or fails at the same
place. -/
theorem next_shift (h : script.place.pos.Counted) (base : Position) :
    (script.shift base).next s =
      ((script.next s).1.mapError (SqlError.shift base), (script.next s).2.shift base) ∧
      (script.next s).2.place.pos.Counted := by
  obtain ⟨found, counted, lead⟩ := nextPiece_shift (s := s) h base
  generalize outcome : script.nextPiece s = r at found counted lead
  obtain ⟨answer, rest⟩ := r
  cases answer with
  | error e =>
    rw [next_of_error outcome, next_of_error found]
    exact ⟨rfl, counted⟩
  | ok piece =>
    cases piece with
    | none =>
      rw [next_of_none outcome, next_of_none found]
      exact ⟨rfl, counted⟩
    | some p =>
      rw [next_of_some outcome, next_of_some found, Piece.read_shift (lead p rfl)]
      refine ⟨?_, counted⟩
      cases p.read s <;> rfl

/-- A script gives the same statements wherever it stands, or fails at the same place. -/
theorem all_shift (h : script.place.pos.Counted) (base : Position) :
    (script.shift base).all s =
      ((script.all s).1.mapError (SqlError.shift base), (script.all s).2.shift base) := by
  fun_induction all s script with
  | case1 script e failed =>
    have next := (next_shift (s := s) h base).1
    have failed' : ((script.shift base).next s).1 = .error (e.shift base) := by
      rw [next, failed]
      rfl
    rw [all_of_error failed', next]
    rfl
  | case2 script ended =>
    have next := (next_shift (s := s) h base).1
    have ended' : ((script.shift base).next s).1 = .ok none := by
      rw [next, ended]
      rfl
    rw [all_of_none ended', next]
    rfl
  | case3 script st found rest behind outcome ih =>
    obtain ⟨next, counted⟩ := next_shift (s := s) h base
    have found' : ((script.shift base).next s).1 = .ok (some st) := by
      rw [next, found]
      rfl
    have tail := ih counted
    rw [outcome] at tail
    rw [all_of_some found', next, tail]
    cases rest <;> rfl

end Script

end BoundSql
