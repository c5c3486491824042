import BoundSql.Proofs.Script.Piece

/-!
# Blanks and comments in front of a script

Blanks and comments in front of a piece become part of the gap of its first token and change nothing
else. Blanks in front of a script change nothing at all, for `DELIMITER` lines are looked for behind
blanks; behind comments they are not.
-/

namespace BoundSql

open Text Token

variable {front blanks cs : List Char}

theorem Token.gap_blanks (h : AllBlank blanks) (hash : Bool) (cs : List Char) :
    Gap hash blanks cs := by
  induction blanks with
  | nil => exact .nil
  | cons c blanks ih =>
    exact .blank (h c List.mem_cons_self) (ih fun d hd => h d (List.mem_cons_of_mem c hd))

/-- A line comment with the break of its line. -/
def Token.lineComment (line : List Char) : List Char := '-' :: '-' :: line ++ ['\n']

theorem Token.gap_lineComment {line : List Char} (h : '\n' ∉ line) (hash : Bool) (cs : List Char) :
    Gap hash (lineComment line) cs := by
  have ends : EndsLine (['\n'] ++ cs) := fun c hc => (Option.some.inj hc).symm
  exact .comment (.dashes h ends) (.blank (by decide) .nil)

/-- The token with more text in front of its gap. -/
def Token.indent (front : List Char) (t : Token) : Token := { t with gap := front ++ t.gap }

/-- The piece with more text in front of its first gap. -/
def Piece.indent (front : List Char) (p : Piece) : Piece :=
  match p.tokens with
  | [] => { p with terminator := p.terminator.indent front }
  | t :: ts => { p with tokens := t.indent front :: ts }

/-- What stands in front of the first token of a piece has no part in the statement. -/
theorem Piece.read_indent {p : Piece} (h : p.tokens ≠ []) (front : List Char) (s : ParseSettings) :
    (p.indent front).read s = p.read s := by
  obtain ⟨tokens, terminator, after⟩ := p
  cases tokens with
  | nil => exact absurd rfl h
  | cons t ts => rfl

namespace Lexer

theorem next_gap {lx : Lexicon} (h : Gap lx.dialect.hashComments front cs) (pos : Position)
    (n : Nat) :
    (Lexer.mk lx (front ++ cs) pos n).next =
      ((Lexer.mk lx cs (pos.after front) n).next.1.indent front,
        (Lexer.mk lx cs (pos.after front) n).next.2) := by
  have length : (Lexer.mk lx (front ++ cs) pos n).gapLength =
      front.length + (Lexer.mk lx cs (pos.after front) n).gapLength :=
    gapLength_of_gap h
  have gap : (Lexer.mk lx (front ++ cs) pos n).gap =
      front ++ (Lexer.mk lx cs (pos.after front) n).gap := by
    rw [Lexer.gap, length]
    exact List.take_length_add_append _
  have ahead : (Lexer.mk lx (front ++ cs) pos n).ahead =
      (Lexer.mk lx cs (pos.after front) n).ahead := by
    rw [Lexer.ahead, length]
    exact List.drop_length_add_append _
  have place : (Lexer.mk lx (front ++ cs) pos n).tokenPos =
      (Lexer.mk lx cs (pos.after front) n).tokenPos := by
    rw [tokenPos, gap, Position.after_append]
    rfl
  rw [next, next, ahead]
  cases (Lexer.mk lx cs (pos.after front) n).ahead with
  | nil =>
    rw [gap, place]
    rfl
  | cons c cs =>
    simp only [cut, gap, place]
    rfl

theorem piece_gap {lx : Lexicon} (h : Gap lx.dialect.hashComments front cs) (limit : Nat)
    (blocks : BlockState) (start : Option Nat) (pos : Position) (n : Nat) :
    (Lexer.mk lx (front ++ cs) pos n).piece limit blocks start =
      ((Lexer.mk lx cs (pos.after front) n).piece limit blocks start).map (Piece.indent front) := by
  have next := next_gap h pos n
  have step : (Lexer.mk lx (front ++ cs) pos n).nextIn blocks =
      (((Lexer.mk lx cs (pos.after front) n).nextIn blocks).1,
        ((Lexer.mk lx cs (pos.after front) n).nextIn blocks).2.indent front) := by
    rw [nextIn, next]
    rfl
  have ends : (Lexer.mk lx (front ++ cs) pos n).atEnd limit blocks start =
      (Lexer.mk lx cs (pos.after front) n).atEnd limit blocks start := by
    rw [atEnd, step]
    rfl
  cases ended : (Lexer.mk lx cs (pos.after front) n).atEnd limit blocks start with
  | error e =>
    rw [piece_of_error ended, piece_of_error (ends.trans ended)]
    rfl
  | ok done =>
    cases done with
    | true =>
      rw [piece_of_true ended, piece_of_true (ends.trans ended), step, next]
      rfl
    | false =>
      rw [piece_of_false ended, piece_of_false (ends.trans ended), step, next]
      dsimp only [Token.indent]
      cases (Lexer.mk lx cs (pos.after front) n).next.2.piece limit _ _ <;> rfl

end Lexer

namespace Place

theorem delimiterLine?_blanks (h : AllBlank blanks) (cs : List Char) :
    delimiterLine? (blanks ++ cs) =
      (delimiterLine? cs).map fun line => (line.1, blanks.length + line.2) := by
  have front : ((blanks ++ cs).takeWhile isBlank).length =
      blanks.length + (cs.takeWhile isBlank).length := by
    rw [List.takeWhile_append_of_pos h, List.length_append]
  have behind : (blanks ++ cs).drop (blanks.length + (cs.takeWhile isBlank).length) =
      cs.drop (cs.takeWhile isBlank).length := List.drop_length_add_append _
  simp only [delimiterLine?, front, behind]
  split
  · split
    · simp [Nat.add_assoc]
    · rfl
  · rfl

/-- The mark at the end of a `DELIMITER` line is passed over too. -/
theorem delimiterLine?_pos {d : List Char} {n : Nat} (h : delimiterLine? cs = some (d, n)) : 0 < n := by
  unfold delimiterLine? at h
  dsimp only at h
  split at h
  · split at h
    · cases h
      exact Nat.succ_pos _
    · cases h
  · cases h

/-- Blanks in front of `DELIMITER` lines are passed over with them; other blanks stay. -/
theorem skipDelimiterLines_blanks (h : AllBlank blanks) (delimiter cs : List Char) (pos : Position) :
    (Place.mk (blanks ++ cs) pos).skipDelimiterLines delimiter =
        (Place.mk cs (pos.after blanks)).skipDelimiterLines delimiter ∨
      (Place.mk (blanks ++ cs) pos).skipDelimiterLines delimiter = (delimiter, ⟨blanks ++ cs, pos⟩) ∧
        (Place.mk cs (pos.after blanks)).skipDelimiterLines delimiter =
          (delimiter, ⟨cs, pos.after blanks⟩) := by
  have lines := delimiterLine?_blanks h cs
  cases line : delimiterLine? cs with
  | none =>
    rw [line] at lines
    exact .inr ⟨skipDelimiterLines_of_none (p := ⟨blanks ++ cs, pos⟩) lines _,
      skipDelimiterLines_of_none (p := ⟨cs, pos.after blanks⟩) line _⟩
  | some found =>
    obtain ⟨d, n⟩ := found
    have positive := delimiterLine?_pos line
    rw [line, Option.map_some] at lines
    have skipped : (Place.mk (blanks ++ cs) pos).skip (blanks.length + n - 1 + 1) =
        (Place.mk cs (pos.after blanks)).skip (n - 1 + 1) := by
      have count : blanks.length + n - 1 + 1 = blanks.length + (n - 1 + 1) := by omega
      rw [count, skip, skip, List.drop_length_add_append, List.take_length_add_append,
        Position.after_append]
    left
    rw [skipDelimiterLines_of_some (p := ⟨blanks ++ cs, pos⟩) lines,
      skipDelimiterLines_of_some (p := ⟨cs, pos.after blanks⟩) line]
    exact congrArg (skipDelimiterLines _) skipped

end Place

namespace Script

variable {s : ParseSettings}

/-- Blanks in front of a script are passed over with the `DELIMITER` lines behind them, or both
scripts go on where they are. -/
theorem settle_blanks (h : AllBlank blanks) (d : Dialect) (delimiter cs : List Char)
    (pos : Position) :
    (Script.mk delimiter ⟨blanks ++ cs, pos⟩).settle d =
        (Script.mk delimiter ⟨cs, pos.after blanks⟩).settle d ∨
      (Script.mk delimiter ⟨blanks ++ cs, pos⟩).settle d =
          Script.mk delimiter ⟨blanks ++ cs, pos⟩ ∧
        (Script.mk delimiter ⟨cs, pos.after blanks⟩).settle d =
          Script.mk delimiter ⟨cs, pos.after blanks⟩ := by
  unfold settle
  split
  · rcases Place.skipDelimiterLines_blanks h delimiter cs pos with same | ⟨here, there⟩
    · exact .inl (by rw [same])
    · exact .inr ⟨by rw [here], by rw [there]⟩
  · exact .inr ⟨rfl, rfl⟩

/-- The next statement depends on the script behind its `DELIMITER` lines. -/
theorem next_congr {a b : Script} (h : a.settle s.dialect = b.settle s.dialect) :
    a.next s = b.next s := by
  have pieces : a.nextPiece s = b.nextPiece s := by
    rw [nextPiece, nextPiece, h]
  rw [next, next, pieces]

/-- Two scripts give the same next statement and go on with the same delimiter, and at the same
place unless they fail. -/
def SameNext (s : ParseSettings) (a b : Script) : Prop :=
  (a.next s).1 = (b.next s).1 ∧ (a.next s).2.delimiter = (b.next s).2.delimiter ∧
    ∀ found, (b.next s).1 = .ok found → (a.next s).2 = (b.next s).2

theorem SameNext.of_eq {a b : Script} (h : a.next s = b.next s) : SameNext s a b :=
  ⟨by rw [h], by rw [h], fun _ _ => by rw [h]⟩

/-- Blanks and comments in front of a script change nothing, if no `DELIMITER` line stands on either
side of them. -/
theorem next_front {delimiter : List Char} {pos : Position}
    (h : Gap s.dialect.hashComments front cs)
    (here : (Script.mk delimiter ⟨front ++ cs, pos⟩).settle s.dialect =
      Script.mk delimiter ⟨front ++ cs, pos⟩)
    (there : (Script.mk delimiter ⟨cs, pos.after front⟩).settle s.dialect =
      Script.mk delimiter ⟨cs, pos.after front⟩) :
    SameNext s (Script.mk delimiter ⟨front ++ cs, pos⟩)
      (Script.mk delimiter ⟨cs, pos.after front⟩) := by
  have indented : (Script.mk delimiter ⟨front ++ cs, pos⟩).piece s =
      ((Script.mk delimiter ⟨cs, pos.after front⟩).piece s).map (Piece.indent front) :=
    @Lexer.piece_gap front cs { dialect := s.dialect, delimiter } h s.maxLength .start none pos 0
  unfold SameNext
  cases found : (Script.mk delimiter ⟨cs, pos.after front⟩).piece s with
  | error e =>
    rw [found] at indented
    rw [← here] at indented
    rw [← there] at found
    rw [next_of_error (nextPiece_of_error indented), next_of_error (nextPiece_of_error found), here,
      there]
    exact ⟨rfl, rfl, fun _ taken => by cases taken⟩
  | ok p =>
    rw [found] at indented
    rw [← here] at indented
    rw [← there] at found
    by_cases empty : p.tokens = []
    · have none : (p.indent front).tokens = [] := by simp [Piece.indent, empty]
      have kind : (p.indent front).terminator.kind = p.terminator.kind := by
        simp [Piece.indent, empty, Token.indent]
      have behind : (p.indent front).after = p.after := by simp [Piece.indent, empty]
      by_cases ended : p.terminator.kind = .eof
      · rw [next_of_none (nextPiece_of_eof indented none (kind.trans ended)),
          next_of_none (nextPiece_of_eof found empty ended), here, there]
        simp [Script.behind, behind]
      · have same : (Script.mk delimiter ⟨front ++ cs, pos⟩).nextPiece s =
            (Script.mk delimiter ⟨cs, pos.after front⟩).nextPiece s := by
          rw [nextPiece_of_empty indented none (kind ▸ ended), nextPiece_of_empty found empty ended,
            here, there, Script.behind, Script.behind, behind]
        rw [next, next, same]
        exact ⟨rfl, rfl, fun _ _ => rfl⟩
    · have behind : (p.indent front).tokens ≠ [] ∧ (p.indent front).after = p.after := by
        unfold Piece.indent
        split
        · exact absurd ‹_› empty
        · exact ⟨List.cons_ne_nil _ _, rfl⟩
      rw [next_of_some (nextPiece_of_tokens indented behind.1),
        next_of_some (nextPiece_of_tokens found empty), Piece.read_indent empty, here, there]
      simp [Script.behind, behind.2]

theorem next_blanks (h : AllBlank blanks) (delimiter cs : List Char) (pos : Position) :
    SameNext s (Script.mk delimiter ⟨blanks ++ cs, pos⟩)
      (Script.mk delimiter ⟨cs, pos.after blanks⟩) := by
  rcases settle_blanks h s.dialect delimiter cs pos with same | ⟨here, there⟩
  · exact .of_eq (next_congr same)
  · exact next_front (gap_blanks h _ cs) here there

/-- Scripts with the same next statement give the same statements, or fail in the same way. -/
theorem all_of_sameNext {a b : Script} (h : SameNext s a b) :
    (a.all s).1 = (b.all s).1 ∧ (a.all s).2.delimiter = (b.all s).2.delimiter := by
  obtain ⟨answer, delimiter, behind⟩ := h
  cases found : (b.next s).1 with
  | error e =>
    rw [found] at answer
    rw [all_of_error answer, all_of_error found]
    exact ⟨rfl, delimiter⟩
  | ok outcome =>
    rw [found] at answer
    cases outcome with
    | none =>
      rw [all_of_none answer, all_of_none found]
      exact ⟨rfl, delimiter⟩
    | some st =>
      rw [all_of_some answer, all_of_some found, behind _ found]
      exact ⟨rfl, rfl⟩

end Script

end BoundSql
