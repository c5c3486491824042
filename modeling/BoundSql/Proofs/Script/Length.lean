import BoundSql.Proofs.Script.Parsed
import BoundSql.Proofs.Token.Trimmed

/-!
# The limit on the length of a statement

A statement is refused as soon as one of its tokens reaches beyond the limit. What stands behind the
last token is not a token: blanks there are dropped, but comments are kept, and nothing counts them.
So the limit holds for the kept text without the comments at its end, `Statement.Parsed.length_sql_le`,
and for all of it only where there are none.
-/

namespace BoundSql

open Text Token

/-! ## Gaps without the blanks at their end -/

namespace Text

variable {a b : List Char}

theorem allBlank_of_trimEnd (h : trimEnd b = []) : AllBlank b := by
  obtain ⟨blanks, hblanks, spelled⟩ := exists_blanks b
  rw [h, List.nil_append] at spelled
  rw [spelled]
  exact hblanks

theorem trimEnd_append_of_ne_nil (h : trimEnd b ≠ []) (a : List Char) :
    trimEnd (a ++ b) = a ++ trimEnd b := by
  obtain ⟨blanks, hblanks, spelled⟩ := exists_blanks b
  have whole : a ++ b = a ++ trimEnd b ++ blanks := by rw [List.append_assoc, ← spelled]
  rw [whole, trimEnd_of_allBlank hblanks,
    trimEnd_of_trimmed ((trimmed_trimEnd b).append_of_ne_nil h a)]

theorem head?_trimEnd (h : trimEnd b ≠ []) : (trimEnd b).head? = b.head? := by
  obtain ⟨blanks, -, spelled⟩ := exists_blanks b
  obtain ⟨c, cs, first⟩ := List.exists_cons_of_ne_nil h
  rw [first] at spelled ⊢
  rw [spelled]
  rfl

end Text

namespace Token

variable {hash : Bool} {gap text after : List Char}

/-- A comment at the end of a text stays one without the blanks at its end. -/
theorem Comment.trimEnd (h : Comment hash text after) : Comment hash (Text.trimEnd text) [] := by
  have line_sub {line : List Char} (single : '\n' ∉ line) : '\n' ∉ Text.trimEnd line := by
    obtain ⟨blanks, -, spelled⟩ := exists_blanks line
    intro newline
    apply single
    rw [spelled]
    exact List.mem_append_left _ newline
  have ends : EndsLine [] := by
    intro c hc
    cases hc
  cases h with
  | @dashes line _ single _ =>
    have marks : Trimmed ['-', '-'] := notLast_concat (by decide) ['-']
    show Comment hash (Text.trimEnd (['-', '-'] ++ line)) []
    rw [trimEnd_append marks]
    exact .dashes (line_sub single) ends
  | @hash line _ set open_ single _ =>
    have mark : Trimmed ['#'] := notLast_concat (by decide) []
    show Comment hash (Text.trimEnd (['#'] ++ line)) []
    rw [trimEnd_append mark]
    refine .hash set ?_ (line_sub single) ends
    show (Text.trimEnd line ++ []).head? ≠ some '#'
    rw [List.append_nil]
    by_cases empty : Text.trimEnd line = []
    · rw [empty]
      simp
    · rw [head?_trimEnd empty]
      intro second
      apply open_
      rw [List.head?_append, second]
      rfl
  | @block content _ closes noParam =>
    have mark : Trimmed ['*', '/'] := notLast_concat (by decide) ['*']
    have whole : Trimmed ('/' :: '*' :: (content ++ ['*', '/'])) :=
      mark.append_of_ne_nil (List.cons_ne_nil _ _) ('/' :: '*' :: content)
    rw [trimEnd_of_trimmed whole]
    exact .block closes noParam

/-- A gap stays one without the blanks at its end, whatever stood behind it. -/
theorem Gap.trimEnd (h : Gap hash gap after) : Gap hash (Text.trimEnd gap) [] := by
  induction h with
  | nil => exact .nil
  | @blank c gap after hc _ ih =>
    show Gap hash (Text.trimEnd ([c] ++ gap)) []
    by_cases empty : Text.trimEnd gap = []
    · have first : AllBlank [c] := by
        intro x hx
        rw [List.mem_singleton.1 hx]
        exact hc
      rw [trimEnd_of_allBlank (allBlank_of_trimEnd empty), ← List.nil_append [c],
        trimEnd_of_allBlank first]
      exact .nil
    · rw [trimEnd_append_of_ne_nil empty]
      exact .blank hc ih
  | @comment text gap after comment _ ih =>
    by_cases empty : Text.trimEnd gap = []
    · rw [trimEnd_of_allBlank (allBlank_of_trimEnd empty), ← List.append_nil (Text.trimEnd text)]
      exact .comment comment.trimEnd .nil
    · rw [trimEnd_append_of_ne_nil empty]
      refine .comment (comment.replace ?_) ih
      have nonempty : gap ≠ [] := by
        rintro rfl
        exact empty rfl
      rw [List.append_nil, head?_trimEnd empty, List.head?_append,
        Option.or_of_isSome (List.isSome_head?.2 nonempty)]

end Token

/-! ## The tokens of a piece -/

/-- A token that belongs to a piece ends within the limit. -/
theorem Token.stop_le_of_endsPiece {limit first : Nat} {t : Token}
    (h : t.endsPiece limit first = .ok false) : t.span.stop ≤ first + limit := by
  unfold endsPiece at h
  split at h
  · cases h
  · cases h
  · cases h
  · split at h
    · cases h
    · omega

namespace Lexer

variable {l : Lexer} {limit : Nat} {blocks : BlockState} {start : Option Nat} {p : Piece}

theorem stop_nextIn (l : Lexer) (blocks : BlockState) :
    (l.nextIn blocks).2.span.stop = l.next.2.pos.offset := by
  show l.next.1.pos.offset + byteLength l.next.1.lexeme = l.next.2.pos.offset
  rw [pos_after_next, pos_next, tokenPos, source, gap_next, Position.after_append,
    Position.offset_after, Position.offset_after, Position.offset_after]

/-- The tokens of a piece whose first token is at `first` end within the limit. -/
theorem piece_stop_le {first : Nat} (h : l.piece limit blocks (some first) = .ok p)
    (full : p.tokens ≠ []) : l.pos.offset + byteLength (p.tokens.flatMap source) ≤ first + limit := by
  induction hn : l.rest.length using Nat.strongRecOn generalizing l blocks p with
  | ind n ih =>
    rcases piece_cases h with ⟨-, rfl⟩ | ⟨inner, q, rest, rfl⟩
    · exact absurd rfl full
    · have here : l.next.2.pos.offset ≤ first + limit := by
        rw [← stop_nextIn l blocks]
        exact stop_le_of_endsPiece inner
      have stop : l.next.2.pos.offset = l.pos.offset + byteLength l.next.1.source := by
        rw [pos_after_next, Position.offset_after]
      have spelled : (q.push (l.nextIn blocks).2).tokens.flatMap source =
          l.next.1.source ++ q.tokens.flatMap source := rfl
      rw [spelled, byteLength_append, ← Nat.add_assoc, ← stop]
      by_cases last : q.tokens = []
      · rw [last]
        exact here
      · exact ih _ (hn ▸ length_rest_next_lt (next_inner inner).1) rest last rfl

/-- From the first token of a piece to the end of the last one it is no further than the limit. -/
theorem length_tokens_le {t : Token} {ts : List Token} (h : l.piece limit blocks none = .ok p)
    (tokens : p.tokens = t :: ts) :
    byteLength (t.lexeme ++ ts.flatMap source) ≤ limit := by
  rcases piece_cases h with ⟨-, rfl⟩ | ⟨inner, q, rest, rfl⟩
  · cases tokens
  · obtain ⟨rfl, rfl⟩ := List.cons_eq_cons.1
      (show (l.nextIn blocks).2 :: q.tokens = t :: ts from tokens)
    have stop : (l.nextIn blocks).2.span.stop =
        (l.nextIn blocks).2.pos.offset + byteLength (l.nextIn blocks).2.lexeme := rfl
    have here := stop_le_of_endsPiece inner
    rw [Option.getD_none] at here rest
    rw [byteLength_append]
    by_cases last : q.tokens = []
    · rw [last]
      simp only [List.flatMap_nil, byteLength]
      omega
    · have behind := piece_stop_le rest last
      rw [← stop_nextIn l blocks] at behind
      omega

/-- In front of the delimiter of a piece stand blanks and comments. -/
theorem exists_gap_of_piece (h : l.piece limit blocks start = .ok p) :
    ∃ after, Gap l.lexicon.dialect.hashComments p.terminator.gap after := by
  induction hn : l.rest.length using Nat.strongRecOn generalizing l blocks start p with
  | ind n ih =>
    rcases piece_cases h with ⟨-, rfl⟩ | ⟨inner, q, rest, rfl⟩
    · refine ⟨l.ahead, ?_⟩
      show Gap _ l.next.1.gap _
      rw [gap_next]
      exact gap_take _ _
    · have behind := ih _ (hn ▸ length_rest_next_lt (next_inner inner).1) rest rfl
      rwa [lexicon_next] at behind

end Lexer

/-! ## Statements -/

namespace Statement

variable {s : ParseSettings} {delimiter text : List Char} {st : Statement}

/-- The text that a statement keeps is within the limit, but for the comments at its end. -/
theorem Parsed.length_sql_le (h : st.Parsed s delimiter text) : ∃ core comments : List Char,
    st.sql = String.ofList (core ++ comments) ∧ byteLength core ≤ s.maxLength ∧
      Gap s.dialect.hashComments comments [] ∧ (AllBlank comments → comments = []) := by
  obtain ⟨script, p, taken, full, read, -⟩ := h.exists_piece
  obtain ⟨-, -, -, sql, -⟩ := Piece.read_eq_ok_iff.1 read
  obtain ⟨t, ts, tokens⟩ := List.exists_cons_of_ne_nil full
  have within := Lexer.length_tokens_le taken tokens
  obtain ⟨after, gap⟩ := Lexer.exists_gap_of_piece taken
  have kept : p.text = t.lexeme ++ ts.flatMap source ++ p.terminator.gap := by
    rw [Piece.text, tokens]
  rw [sql, kept]
  by_cases empty : trimEnd p.terminator.gap = []
  · -- Blanks alone are dropped, with those that the last token may end with.
    obtain ⟨blanks, -, spelled⟩ := exists_blanks (t.lexeme ++ ts.flatMap source)
    refine ⟨trimEnd (t.lexeme ++ ts.flatMap source), [], ?_, ?_, .nil, fun _ => rfl⟩
    · rw [trimEnd_of_allBlank (allBlank_of_trimEnd empty), List.append_nil]
    · rw [spelled, byteLength_append] at within
      omega
  · refine ⟨t.lexeme ++ ts.flatMap source, trimEnd p.terminator.gap, ?_, within, gap.trimEnd,
      fun blank => ?_⟩
    · rw [trimEnd_append_of_ne_nil empty]
    · have nothing := trimEnd_of_allBlank blank []
      rw [List.nil_append, trimEnd_trimEnd] at nothing
      exact nothing

/-- `SELECT 1 /* a long comment */`. -/
def withComment : Statement where
  sql := "SELECT 1 /* a long comment */"
  body := .select (Select.ofColumns [⟨.literal (.integer 1), none⟩])
  params := ⟨[], []⟩

theorem parsed_withComment :
    withComment.Parsed { maxLength := 16 } [] withComment.sql.toList := by
  let ts : List Token :=
    [.onLine (.keyword .SELECT) "" "SELECT" 0, .onLine (.integer 1) " " "1" 7]
  let eof : Token := .onLine .eof " /* a long comment */" "" 29
  let p : Piece := ⟨ts, eof, ⟨{ dialect := .standard }, [], ⟨29, 1, 30⟩, 0⟩⟩
  have found : ((Script.ofText [] withComment.sql.toList).settle .standard).piece
      { maxLength := 16 } = .ok p := by
    decide +kernel
  have inner : p.innerTokens .standard = ts ++ [eof] := by decide +kernel
  exact parsed_of_piece found nofun inner rfl rfl rfl rfl rfl rfl

/-- Under a limit of 16 bytes the statement keeps 29. -/
theorem Parsed.length_sql_le_withComment :
    withComment.Parsed { maxLength := 16 } [] withComment.sql.toList ∧
      byteLength withComment.sql.toList = 29 ∧
      ∃ core comments : List Char, withComment.sql = String.ofList (core ++ comments) ∧
        byteLength core ≤ 16 ∧ Gap false comments [] ∧ (AllBlank comments → comments = []) :=
  ⟨parsed_withComment, by decide +kernel, parsed_withComment.length_sql_le⟩

end Statement

end BoundSql
