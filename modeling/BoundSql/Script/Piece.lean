import BoundSql.Error
import BoundSql.Token.Block

/-!
# Cutting a script into statements

A `Piece` is what stands between two statement delimiters. `Lexer.piece` takes one piece off a
script; a `DELIMITER` line, where the dialect has it, says how pieces are delimited from there on.
-/

namespace BoundSql

open Text Token

/-- The tokens of a statement, the delimiter behind them, and where the script goes on. -/
structure Piece where
  tokens : List Token
  terminator : Token
  after : Lexer

namespace Piece

/-- The text from the first token up to the delimiter. -/
def text (p : Piece) : List Char :=
  match p.tokens with
  | [] => []
  | t :: ts => t.lexeme ++ ts.flatMap Token.source ++ p.terminator.gap

end Piece

/-- The piece with one more token in front. -/
def Piece.push (t : Token) (p : Piece) : Piece := { p with tokens := t :: p.tokens }

/-- Whether a token ends a piece that began at the byte `first`. A token that is an error, or that
reaches more than `limit` bytes behind `first`, is refused. -/
def Token.endsPiece (limit first : Nat) (t : Token) : Except SqlError Bool :=
  match t.kind with
  | .eof | .punct .semicolon => .ok true
  | .error e => .error (.lexical e t.pos)
  | _ => if limit < t.span.stop - first then .error (.tooLong limit t.pos) else .ok false

theorem Token.endsPiece_of_eof {limit first : Nat} {t : Token} (h : t.kind = .eof) :
    t.endsPiece limit first = .ok true := by
  simp [endsPiece, h]

/-- The end of the input stays one, whatever the nesting. -/
theorem BlockState.kind_step_of_eof {d : Dialect} {s : BlockState} {t : Token}
    (h : t.kind = .eof) : (s.step d t).2.kind = .eof := by
  simp [step, enter, h]

/-- Takes a piece off a script, `start` being the offset of its first token if that has been read. -/
def Lexer.piece (limit : Nat) (blocks : BlockState) (start : Option Nat) (l : Lexer) :
    Except SqlError Piece :=
  let step := blocks.step l.lexicon.dialect l.next.1
  let first := start.getD step.2.pos.offset
  match _h : step.2.endsPiece limit first with
  | .error e => .error e
  | .ok true => .ok { tokens := [], terminator := step.2, after := l.next.2 }
  | .ok false => (l.next.2.piece limit step.1 (some first)).map (Piece.push step.2)
termination_by l.rest.length
decreasing_by
  refine Lexer.length_rest_next_lt fun he => ?_
  rw [Token.endsPiece_of_eof (BlockState.kind_step_of_eof he)] at _h
  cases _h

/-- No token adds to the script. -/
theorem Lexer.length_rest_next_le (l : Lexer) : l.next.2.rest.length ≤ l.rest.length := by
  by_cases h : l.next.1.kind = .eof
  · unfold Lexer.next at h ⊢
    have hlen : l.ahead.length ≤ l.rest.length := by simp [Lexer.ahead]
    cases hd : l.ahead with
    | nil => simp
    | cons c cs =>
      rw [hd] at hlen
      simp only [List.length_cons] at hlen
      simp only [Lexer.cut, List.length_drop]
      omega
  · exact Nat.le_of_lt (Lexer.length_rest_next_lt h)

/-- A piece that holds a token or ends with a delimiter leaves less of the script. -/
theorem Lexer.length_rest_piece {limit : Nat} {blocks : BlockState} {start : Option Nat}
    {l : Lexer} {p : Piece} (h : l.piece limit blocks start = .ok p) :
    p.after.rest.length ≤ l.rest.length ∧
      (p.tokens ≠ [] ∨ p.terminator.kind ≠ .eof → p.after.rest.length < l.rest.length) := by
  induction hn : l.rest.length using Nat.strongRecOn generalizing l blocks start p with
  | ind n ih =>
    subst hn
    unfold Lexer.piece at h
    dsimp only at h
    split at h
    · cases h
    · cases h
      refine ⟨l.length_rest_next_le, fun hp => Lexer.length_rest_next_lt fun he => ?_⟩
      simp [BlockState.kind_step_of_eof he] at hp
    · rename_i hends
      have hlt : l.next.2.rest.length < l.rest.length := by
        refine Lexer.length_rest_next_lt fun he => ?_
        rw [Token.endsPiece_of_eof (BlockState.kind_step_of_eof he)] at hends
        cases hends
      generalize hp : l.next.2.piece limit _ _ = out at h
      cases out with
      | error e => cases h
      | ok q =>
        cases h
        have := (ih _ hlt hp rfl).1
        simp only [Piece.push]
        exact ⟨by omega, fun _ => by omega⟩

/-- Where a script goes on: the text left and its place. -/
structure Place where
  rest : List Char
  pos : Position

namespace Place

/-- The beginning of a script. -/
def ofText (text : List Char) : Place := ⟨text, .start⟩

/-- The place some characters further on. -/
def skip (p : Place) (n : Nat) : Place := ⟨p.rest.drop n, p.pos.after (p.rest.take n)⟩

theorem length_skip_lt {p : Place} {n : Nat} (h : p.rest ≠ []) :
    (p.skip (n + 1)).rest.length < p.rest.length := by
  have := List.length_pos_iff.2 h
  rw [skip, List.length_drop]
  omega

/-- The first line of a text, without the mark at its end. -/
def firstLine (cs : List Char) : List Char :=
  let line := cs.takeWhile (· != '\n')
  if line.length < cs.length && line.getLast? == some '\r' then line.dropLast else line

/-- The delimiter that a `DELIMITER` line at the beginning of a text sets, and the number of
characters up to and including the mark at its end. -/
def delimiterLine? (cs : List Char) : Option (List Char × Nat) :=
  let blanks := (cs.takeWhile isBlank).length
  let line := firstLine (cs.drop blanks)
  match words line with
  | command :: delimiter :: _ =>
    if sameWord ((cs.drop blanks).take 9) "DELIMITER".toList && command.length = 9 then
      some (delimiter, blanks + line.length + 1)
    else none
  | _ => none

/-- Passes over the `DELIMITER` lines that stand here. The answer is the delimiter that holds from
there on, empty if it is the semicolon, and the place behind the lines. -/
def skipDelimiterLines (delimiter : List Char) (p : Place) : List Char × Place :=
  match p with
  | ⟨[], pos⟩ => (delimiter, ⟨[], pos⟩)
  | ⟨c :: cs, pos⟩ =>
    match delimiterLine? (c :: cs) with
    | none => (delimiter, ⟨c :: cs, pos⟩)
    | some (d, n) =>
      skipDelimiterLines (if d = [';'] then [] else d) (Place.skip ⟨c :: cs, pos⟩ (n - 1 + 1))
termination_by p.rest.length
decreasing_by exact length_skip_lt (List.cons_ne_nil c cs)

theorem length_skipDelimiterLines_le (delimiter : List Char) (p : Place) :
    (p.skipDelimiterLines delimiter).2.rest.length ≤ p.rest.length := by
  fun_induction skipDelimiterLines delimiter p with
  | case1 => exact Nat.le_refl _
  | case2 => exact Nat.le_refl _
  | case3 delimiter c cs pos d n _ ih =>
    exact Nat.le_trans ih (Nat.le_of_lt (length_skip_lt (List.cons_ne_nil c cs)))

end Place

end BoundSql
