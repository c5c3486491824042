import BoundSql.Token.Scan

/-!
# Reading tokens off a text

A `Lexer` is a place in a text. `Lexer.next` takes one token off it, `Lexer.tokens` all of them up
to the end of the input.
-/

namespace BoundSql

open Text Token

/-- A place in a text from which tokens are read. -/
structure Lexer where
  lexicon : Lexicon
  /-- The text not read yet. -/
  rest : List Char
  /-- Where `rest` begins. -/
  pos : Position
  /-- The number of bare `?` read so far. -/
  ordinal : Nat

namespace Lexer

/-- A lexer at the beginning of a text. -/
def ofText (lexicon : Lexicon) (text : List Char) (pos : Position := .start) : Lexer :=
  { lexicon, rest := text, pos, ordinal := 0 }

/-- A lexer for the part of a text that begins at `start` and ends before the byte `stop`. -/
def within (lexicon : Lexicon) (text : List Char) (start : Position) (stop : Nat) : Lexer :=
  ofText lexicon (slice text start.offset (min stop (byteLength text))) start

/-- The number of blanks and characters of comments in front of the next token. -/
def gapLength (l : Lexer) : Nat :=
  Token.gapLength l.lexicon.dialect.hashComments 0 l.rest

/-- The blanks and comments in front of the next token. -/
def gap (l : Lexer) : List Char := l.rest.take l.gapLength

/-- The text from the next token on. -/
def ahead (l : Lexer) : List Char := l.rest.drop l.gapLength

/-- Where the next token begins. -/
def tokenPos (l : Lexer) : Position := l.pos.after l.gap

/-- The token of the given kind whose characters are `c` and the next `more` ones. -/
def cut (l : Lexer) (kind : TokenKind) (c : Char) (cs : List Char) (more : Nat) : Token × Lexer :=
  let lexeme := c :: cs.take more
  ({ kind, gap := l.gap, lexeme, pos := l.tokenPos },
   { l with
      rest := cs.drop more
      pos := l.tokenPos.after lexeme
      ordinal := if lexeme = ['?'] then l.ordinal + 1 else l.ordinal })

/-- Takes one token off the text. At the end of the text it is an empty `eof` token. -/
def next (l : Lexer) : Token × Lexer :=
  match l.ahead with
  | [] => ({ kind := .eof, gap := l.gap, lexeme := [], pos := l.tokenPos },
           { l with rest := [], pos := l.tokenPos })
  | c :: cs =>
    let (kind, more) := scan l.lexicon l.ordinal c cs
    l.cut kind c cs more

/-- Every token but the last leaves less text. -/
theorem length_rest_next_lt {l : Lexer} (h : l.next.1.kind ≠ .eof) :
    l.next.2.rest.length < l.rest.length := by
  have hlen : l.ahead.length ≤ l.rest.length := by simp [ahead]
  unfold next at h ⊢
  cases hd : l.ahead with
  | nil => simp [hd] at h
  | cons c cs =>
    simp only [hd, List.length_cons] at hlen
    simp only [cut, List.length_drop]
    omega

/-- The tokens from here on. The last one, and only that one, is the end of the input. -/
def tokens (l : Lexer) : List Token :=
  match _h : l.next with
  | (t, l') => if _ht : t.kind = .eof then [t] else t :: l'.tokens
termination_by l.rest.length
decreasing_by
  have := length_rest_next_lt (l := l) (by rw [_h]; exact _ht)
  rwa [_h] at this

end Lexer

end BoundSql
