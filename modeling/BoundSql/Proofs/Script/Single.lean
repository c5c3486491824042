import BoundSql.Proofs.Script.Length
import BoundSql.Proofs.Script.Stored

/-!
# Texts that are one statement

A text without semicolons, errors and a `DELIMITER` line that is within the limit of length is one
piece, and is read as the statement of this piece: `Statement.readFirst_of_plain`.
-/

namespace BoundSql

open Text Token

/-- The token ends no statement and is no error. -/
def TokenKind.Plain (k : TokenKind) : Prop := k ≠ .punct .semicolon ∧ ∀ e, k ≠ .error e

namespace Lexer

variable {l : Lexer} {limit : Nat} {blocks : BlockState} {start : Option Nat}

/-- Blocks change nothing but semicolons. -/
theorem nextIn_of_plain (plain : l.next.1.kind.Plain) : (l.nextIn blocks).2 = l.next.1 := by
  rcases blocks.kind_step l.lexicon.dialect l.next.1 with kept | ⟨semicolon, -⟩
  · exact congrArg (fun k => { l.next.1 with kind := k }) kept
  · exact absurd semicolon plain.1

/-- Plain tokens within the limit are one piece, up to the end of the input. -/
theorem piece_of_plain (blocks : BlockState) (start : Option Nat) {ts : List Token} {eof : Token}
    (h : l.tokens = ts ++ [eof]) (ended : eof.kind = .eof) (plain : ∀ t ∈ ts, t.kind.Plain)
    (fits : l.pos.offset + byteLength l.rest ≤ start.getD l.pos.offset + limit) :
    ∃ after : Lexer, after.rest = [] ∧ l.piece limit blocks start = .ok ⟨ts, eof, after⟩ := by
  induction ts generalizing l blocks start with
  | nil =>
    obtain ⟨first, -⟩ := next_of_tokens h
    have kind : l.next.1.kind = .eof := by rw [first, ended]
    have sound : l.next.1.kind.Plain := by
      rw [kind]
      exact ⟨by simp, by simp⟩
    have stays : (l.nextIn blocks).2 = eof := (nextIn_of_plain sound).trans first
    refine ⟨l.next.2, rest_next_of_eof kind, ?_⟩
    rw [piece_of_true, stays]
    rw [atEnd, stays]
    exact endsPiece_of_eof ended
  | cons t ts ih =>
    obtain ⟨first, rest⟩ := next_of_tokens h
    have kind : t.kind ≠ .eof := ne_eof_of_tokens h List.mem_cons_self
    have sound := plain t List.mem_cons_self
    have stays : (l.nextIn blocks).2 = t := by
      rw [nextIn_of_plain (first ▸ sound), first]
    -- The token lies between the first one and the end of the text.
    have spelled : byteLength l.rest = byteLength t.source + byteLength l.next.2.rest := by
      rw [← byteLength_append, ← first, source_next_append]
    have place : l.next.2.pos.offset = l.pos.offset + byteLength t.source := by
      rw [pos_after_next, first, Position.offset_after]
    have begins : l.pos.offset ≤ t.pos.offset := by
      rw [← first, pos_next, tokenPos, Position.offset_after]
      exact Nat.le_add_right _ _
    have stop : t.span.stop = l.next.2.pos.offset := by rw [← stop_nextIn l blocks, stays]
    have inside : l.atEnd limit blocks start = .ok false := by
      rw [atEnd, stays, endsPiece]
      split
      · exact absurd ‹_› kind
      · exact absurd ‹_› sound.1
      · exact absurd ‹_› (sound.2 _)
      · rw [if_neg]
        cases start <;> simp only [Option.getD_none, Option.getD_some] at fits ⊢ <;> omega
    obtain ⟨after, nothing, found⟩ := ih (l.nextIn blocks).1 (some (start.getD t.pos.offset))
      (rest kind) (fun u hu => plain u (List.mem_cons_of_mem t hu)) (by
        cases start <;> simp only [Option.getD_none, Option.getD_some] at fits ⊢ <;> omega)
    refine ⟨after, nothing, ?_⟩
    rw [piece_of_false inside, stays, found]
    rfl

end Lexer

namespace Statement

variable {s : ParseSettings} {text : List Char} {w : Word} {ws : List Word}

/-- A text that begins with its first token, and has neither semicolons nor errors, is one piece with
all of the tokens. -/
theorem readFirst_of_plain (command : Place.delimiterLine? text = none)
    (first : s.dialect.lexicon.ahead text = text) (words : s.dialect.words text = w :: ws)
    (plain : ∀ u ∈ w :: ws, u.kind.Plain) (fits : byteLength text ≤ s.maxLength) :
    ∃ p : Piece, p.lead.kind = w.kind ∧
      p.innerTokens s.dialect = (Lexer.ofText s.dialect.lexicon text).tokens ∧
      readFirst s [] text = ((p.read s).map (·, []), []) := by
  obtain ⟨ts, eof, tokens, ended, empty, -⟩ := (Lexer.ofText s.dialect.lexicon text).tiles.ends
  have all := Lexer.toWord_tokens_ofText s.dialect.lexicon text .start
  rw [tokens, List.map_append, List.map_singleton] at all
  obtain ⟨own, -⟩ := List.append_inj' all rfl
  have own : ts.map Token.toWord = w :: ws := own.trans words
  have sound (t : Token) (member : t ∈ ts) : t.kind.Plain :=
    plain t.toWord (own ▸ List.mem_map_of_mem member)
  have inside : (Lexer.ofText s.dialect.lexicon text).pos.offset + byteLength text ≤
      (Lexer.ofText s.dialect.lexicon text).pos.offset + s.maxLength := Nat.add_le_add_left fits _
  obtain ⟨after, nothing, taken⟩ := Lexer.piece_of_plain .start none tokens ended sound inside
  obtain ⟨t, rest, rfl⟩ : ∃ t rest, ts = t :: rest := by
    cases ts with
    | nil => cases own
    | cons t rest => exact ⟨t, rest, rfl⟩
  refine ⟨⟨t :: rest, eof, after⟩, ?_, ?_, ?_⟩
  · exact congrArg Word.kind (List.cons_eq_cons.1 own).1
  · -- Nothing stands in front of the first token.
    have next := (Lexer.next_of_tokens tokens).1
    have spelled := (Lexer.ofText s.dialect.lexicon text).gap_append_ahead
    have gap : (Lexer.ofText s.dialect.lexicon text).gap = [] :=
      List.append_left_eq_self.1 (spelled.trans first.symm)
    have noGap : t.gap = [] := by rw [← next, Lexer.gap_next, gap]
    have place : t.pos = .start := by rw [← next, Lexer.pos_next, Lexer.tokenPos, gap]; rfl
    have whole : t.lexeme ++ rest.flatMap source ++ eof.gap = text := by
      have sources := (Lexer.ofText s.dialect.lexicon text).flatMap_source_tokens
      rw [tokens] at sources
      simpa [source, noGap, empty, Lexer.ofText] using sources
    rw [Piece.innerTokens, Piece.text_of_tokens rfl, Piece.lead_of_tokens rfl, place, whole]
    rfl
  · have here : (Script.ofText [] text).settle s.dialect = Script.ofText [] text :=
      Script.settle_of_none command s.dialect
    have found : ((Script.ofText [] text).settle s.dialect).piece s =
        .ok ⟨t :: rest, eof, after⟩ := by
      rw [here]
      exact taken
    have next := Script.next_of_some (Script.nextPiece_of_tokens found (List.cons_ne_nil _ _))
    rw [readFirst, next, here]
    generalize Piece.read s _ = answer
    cases answer with
    | error e => rfl
    | ok st =>
      have left : (Script.behind (.ofText [] text) ⟨t :: rest, eof, after⟩).place.rest = [] := nothing
      dsimp only [Except.map]
      rw [left]
      rfl

end Statement

end BoundSql
