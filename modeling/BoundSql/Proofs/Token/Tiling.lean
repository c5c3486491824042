import BoundSql.Proofs.Token.Gap
import BoundSql.Proofs.Token.Word
import BoundSql.Script.Piece

/-!
# Tokens tile their text

The tokens of a text and the gaps between them spell it, and each token knows its place. `Tiling`
says so in terms of spans and positions; `Lexer.tokens_tile` holds for both ways of reading, with and
without regard to procedural blocks.
-/

namespace BoundSql

open Text Token

theorem Text.byteLength_pos {cs : List Char} (h : cs ≠ []) : 0 < byteLength cs := by
  cases cs with
  | nil => exact absurd rfl h
  | cons c cs => exact Nat.lt_of_lt_of_le c.utf8Size_pos (Nat.le_add_right _ _)

namespace Text.Position

/-- The number of characters behind the last line break. -/
def lastLine (cs : List Char) : Nat := (cs.reverse.takeWhile (· != '\n')).length

/-- The place behind a text, counted and not stepped to. -/
def behind (cs : List Char) : Position := ⟨byteLength cs, 1 + cs.count '\n', 1 + lastLine cs⟩

theorem lastLine_concat (cs : List Char) (c : Char) :
    lastLine (cs ++ [c]) = if c = '\n' then 0 else lastLine cs + 1 := by
  by_cases newline : c = '\n' <;> simp [lastLine, newline]

/-- Stepping over a text leads to the place behind it. -/
theorem start_after (cs : List Char) : start.after cs = behind cs := by
  induction hcs : cs.reverse generalizing cs with
  | nil =>
    obtain rfl : cs = [] := List.reverse_eq_nil_iff.1 hcs
    rfl
  | cons c front ih =>
    obtain rfl : cs = front.reverse ++ [c] := by
      rw [← List.reverse_reverse cs, hcs, List.reverse_cons]
    have stepped : start.after (front.reverse ++ [c]) = (start.after front.reverse).step c :=
      after_append _ _ _
    rw [stepped, ih front.reverse (List.reverse_reverse front), behind, behind, lastLine_concat,
      byteLength_append, List.count_append]
    by_cases newline : c = '\n' <;> simp [step, newline, byteLength, Nat.add_assoc]

end Text.Position

/-- The tokens as they are read while a script is split: with regard to procedural blocks. -/
def Lexer.splitTokens (l : Lexer) : List Token :=
  (BlockState.start.track l.lexicon.dialect l.tokens).map Prod.fst

/-- Blocks change what a token means only for a semicolon, which then ends no statement. -/
theorem BlockState.kind_step (d : Dialect) (s : BlockState) (t : Token) :
    (s.step d t).2.kind = t.kind ∨
      t.kind = .punct .semicolon ∧ (s.step d t).2.kind = .punct .blockSemicolon := by
  have enter (s : BlockState) (kind : TokenKind) : (s.enter d kind).2 = kind ∨
      kind = .punct .semicolon ∧ (s.enter d kind).2 = .punct .blockSemicolon := by
    unfold BlockState.enter
    split
    all_goals repeat' split
    all_goals simp
  exact enter _ _

theorem BlockState.kind_step_ne_eof {d : Dialect} {s : BlockState} {t : Token}
    (h : t.kind ≠ .eof) : (s.step d t).2.kind ≠ .eof := by
  rcases s.kind_step d t with kept | ⟨-, changed⟩
  · rwa [kept]
  · rw [changed]
    simp

/-- The tokens of a text that begins at `pos`, read one after the other. -/
inductive Tiles (hash : Bool) : Position → List Char → List Token → Prop
  | eof {pos : Position} {t : Token} : t.kind = .eof → t.lexeme = [] → t.pos = pos.after t.gap →
    Gap hash t.gap [] → Tiles hash pos t.gap [t]
  | token {pos : Position} {t : Token} {rest : List Char} {ts : List Token} : t.kind ≠ .eof →
    t.lexeme ≠ [] → t.pos = pos.after t.gap → Gap hash t.gap (t.lexeme ++ rest) →
    Tiles hash (pos.after t.source) rest ts → Tiles hash pos (t.source ++ rest) (t :: ts)

namespace Tiles

variable {hash : Bool} {pos : Position} {text : List Char} {ts before after : List Token}
  {t : Token}

theorem source_eq (h : Tiles hash pos text ts) : ts.flatMap source = text := by
  induction h with
  | eof _ lexeme => simp [source, lexeme]
  | token _ _ _ _ _ ih => rw [List.flatMap_cons, ih]

/-- Behind some of its tokens a text is tiled by the others. -/
theorem behind (h : Tiles hash pos text (before ++ t :: after)) :
    Tiles hash (pos.after (before.flatMap source)) ((t :: after).flatMap source) (t :: after) := by
  induction before generalizing pos text with
  | nil =>
    have spelled : (t :: after).flatMap source = text := h.source_eq
    rw [spelled]
    exact h
  | cons b before ih =>
    rw [List.cons_append] at h
    generalize hrest : before ++ t :: after = rest at h
    cases h with
    | eof => simp at hrest
    | token _ _ _ _ tiles =>
      rw [List.flatMap_cons, Position.after_append]
      exact ih (hrest ▸ tiles)

theorem head (h : Tiles hash pos text (t :: ts)) :
    t.pos = pos.after t.gap ∧ Gap hash t.gap (t.lexeme ++ ts.flatMap source) := by
  cases h with
  | eof _ lexeme place gap => exact ⟨place, by simpa [lexeme] using gap⟩
  | token _ _ place gap rest =>
    rw [rest.source_eq]
    exact ⟨place, gap⟩

/-- The last token is the end of the input, and only that one is empty. -/
theorem ends (h : Tiles hash pos text ts) : ∃ front last, ts = front ++ [last] ∧
    last.kind = .eof ∧ last.lexeme = [] ∧ ∀ t ∈ front, t.kind ≠ .eof ∧ t.lexeme ≠ [] := by
  induction h with
  | eof kind lexeme => exact ⟨[], _, rfl, kind, lexeme, by simp⟩
  | @token pos t rest ts kind lexeme _ _ _ ih =>
    obtain ⟨front, last, rfl, hkind, hlexeme, hfront⟩ := ih
    refine ⟨t :: front, last, rfl, hkind, hlexeme, ?_⟩
    intro u member
    rcases List.mem_cons.1 member with rfl | member
    · exact ⟨kind, lexeme⟩
    · exact hfront u member

theorem place (h : Tiles hash .start text (before ++ t :: after)) :
    t.pos = .behind (before.flatMap source ++ t.gap) := by
  rw [h.behind.head.1, ← Position.after_append, Position.start_after]

theorem span (h : Tiles hash .start text (before ++ t :: after)) :
    t.span = ⟨byteLength (before.flatMap source ++ t.gap),
      byteLength (before.flatMap source ++ t.gap ++ t.lexeme)⟩ := by
  rw [Token.span, h.place, byteLength_append _ t.lexeme]
  rfl

theorem spelled (h : Tiles hash pos text (before ++ t :: after)) :
    text = before.flatMap source ++ t.gap ++ t.lexeme ++ after.flatMap source := by
  rw [← h.source_eq, List.flatMap_append, List.flatMap_cons]
  simp only [source, List.append_assoc]

/-- A token begins where the token in front of it ends, or later. -/
theorem ordered (h : Tiles hash pos text ts) : (∀ t ∈ ts, pos.offset ≤ t.span.start) ∧
    ts.Pairwise fun a b => a.span.stop ≤ b.span.start := by
  have start_le {pos : Position} {t : Token} (place : t.pos = pos.after t.gap) :
      pos.offset ≤ t.span.start := by
    rw [Token.span, place, Position.offset_after]
    exact Nat.le_add_right _ _
  induction h with
  | eof _ _ place => exact ⟨by simpa using start_le place, List.pairwise_singleton _ _⟩
  | @token pos t rest ts _ _ place _ _ ih =>
    obtain ⟨later, ordered⟩ := ih
    have stop : (pos.after t.source).offset = t.span.stop := by
      simp only [Token.span, place, source, Position.offset_after, byteLength_append, Nat.add_assoc]
    rw [stop] at later
    have inside : t.span.start ≤ t.span.stop := Nat.le_add_right _ _
    refine ⟨?_, List.pairwise_cons.2 ⟨later, ordered⟩⟩
    intro u member
    rcases List.mem_cons.1 member with rfl | member
    · exact start_le place
    · exact Nat.le_trans (start_le place) (Nat.le_trans inside (later u member))

/-- The tiling does not depend on how the nesting of blocks changes what tokens mean. -/
theorem track (d : Dialect) (s : BlockState) (h : Tiles hash pos text ts) :
    Tiles hash pos text ((s.track d ts).map Prod.fst) := by
  induction h generalizing s with
  | @eof pos t kind lexeme place gap =>
    exact .eof (BlockState.kind_step_of_eof kind) lexeme place gap
  | @token pos t rest ts kind lexeme place gap _ ih =>
    have kept : (s.step d t).2 = { t with kind := (s.step d t).2.kind } := rfl
    exact .token (BlockState.kind_step_ne_eof kind) lexeme place gap (ih _)

end Tiles

namespace Lexer

theorem gap_append_ahead (l : Lexer) : l.gap ++ l.ahead = l.rest := List.take_append_drop _ _

/-- The text is spelled by its next token and the text behind that. -/
theorem source_next_append (l : Lexer) : l.next.1.source ++ l.next.2.rest = l.rest := by
  cases ahead : l.ahead with
  | nil =>
    rw [← l.gap_append_ahead, next, ahead]
    simp [source]
  | cons c cs =>
    rw [next_of_ahead_cons ahead, ← l.gap_append_ahead, ahead]
    simp [cut, source]

theorem tiles (l : Lexer) : Tiles l.lexicon.dialect.hashComments l.pos l.rest l.tokens := by
  induction hn : l.rest.length using Nat.strongRecOn generalizing l with
  | ind n ih =>
    have spelled := l.gap_append_ahead
    have gap : Gap l.lexicon.dialect.hashComments l.gap l.ahead := gap_take _ _
    cases ahead : l.ahead with
    | nil =>
      rw [ahead, List.append_nil] at spelled
      rw [ahead] at gap
      have next : l.next.1 = { kind := .eof, gap := l.gap, lexeme := [], pos := l.tokenPos } := by
        rw [Lexer.next, ahead]
      rw [tokens_of_eof (by rw [next]), next, ← spelled]
      exact Tiles.eof (t := ⟨.eof, l.gap, [], l.tokenPos⟩) rfl rfl rfl gap
    | cons c cs =>
      have next := next_of_ahead_cons ahead
      have kind := kind_next_ne_eof ahead
      have shorter := length_rest_next_lt kind
      have text := l.source_next_append
      rw [tokens_of_ne_eof kind, next]
      rw [next] at kind shorter text
      generalize (scan l.lexicon l.ordinal c cs).1 = k at kind shorter text ⊢
      generalize (scan l.lexicon l.ordinal c cs).2 = more at kind shorter text ⊢
      have behind := ih _ (hn ▸ shorter) (l.cut k c cs more).2 rfl
      have place : (l.cut k c cs more).2.pos = l.pos.after (l.cut k c cs more).1.source :=
        (Position.after_append _ _ _).symm
      rw [← text]
      rw [place] at behind
      refine .token kind (List.cons_ne_nil _ _) rfl ?_ behind
      have lexeme : (l.cut k c cs more).1.lexeme ++ (l.cut k c cs more).2.rest = l.ahead := by
        rw [ahead]
        simp [cut]
      rw [lexeme]
      exact gap

end Lexer

end BoundSql
