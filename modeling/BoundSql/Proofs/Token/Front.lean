import BoundSql.Proofs.Token.Cut
import BoundSql.Proofs.Token.Tiling

/-!
# Tokens of the front part of a text

A lexer that takes a token off a text takes the same token off any text with the same front part,
as long as the token lies in that part, a break follows the part, and a stop in its place.
-/

namespace BoundSql

open Text Token

namespace Lexer

/-- The lexer at its place in front of another text. -/
def onto (l : Lexer) (cs : List Char) : Lexer := { l with rest := cs }

variable {l : Lexer} {c : Char} {cs rest tail : List Char}

/-- The gap is as long as it is counted. -/
theorem length_gap (l : Lexer) : l.gap.length = l.gapLength := by
  rw [gap, List.length_take]
  exact Nat.min_eq_left (gapLength_le _ _ _)

/-- Only the end of the text is read where nothing is ahead. -/
theorem ahead_ne_nil (h : l.next.1.kind ≠ .eof) : l.ahead ≠ [] := by
  intro ahead
  rw [next, ahead] at h
  exact h rfl

/-- No blank is left in front of a token. -/
theorem isBlank_of_ahead (h : l.ahead = c :: cs) : isBlank c = false := by
  have none := gapLength_behind l.lexicon.dialect.hashComments 0 l.rest
  have text : l.rest.drop (Token.gapLength l.lexicon.dialect.hashComments 0 l.rest) = c :: cs := h
  rw [text, Token.gapLength] at none
  cases blank : isBlank c with
  | false => rfl
  | true =>
    rw [if_pos blank] at none
    cases none

/-- A token that is no error ends in the text. -/
theorem scan_fits (hlx : l.lexicon.delimiter = []) (ahead : l.ahead = c :: cs)
    (sound : ∀ e, l.next.1.kind ≠ .error e) :
    (scan l.lexicon l.ordinal c cs).2 ≤ cs.length := by
  rw [next_of_ahead_cons ahead] at sound
  exact (scan_append hlx ends_nil (Lexicon.commentLead_ahead ahead) sound).2

/-- The gap of a front part is found again whatever stands behind the part, if more than the gap stands
in the part. -/
theorem ahead_onto {front : List Char} (hrest : Breaks rest) (htail : Ends tail)
    (htext : l.rest = l.gap ++ c :: front ++ rest)
    (hopen : commentLead l.lexicon.dialect.hashComments (c :: front) ≠ .unterminated)
    (hlead : ∀ more, commentLead l.lexicon.dialect.hashComments (c :: front) ≠ .comment more) :
    (l.onto (l.gap ++ c :: front ++ tail)).ahead = c :: (front ++ tail) ∧
      (l.onto (l.gap ++ c :: front ++ tail)).gap = l.gap := by
  have counted : Token.gapLength l.lexicon.dialect.hashComments 0 (l.gap ++ c :: front ++ rest) =
      l.gap.length := by
    rw [← htext, length_gap]
    rfl
  have inFront : (l.gap ++ c :: front).drop
      (Token.gapLength l.lexicon.dialect.hashComments 0 (l.gap ++ c :: front)) = c :: front := by
    have inside : Token.gapLength l.lexicon.dialect.hashComments 0 (l.gap ++ c :: front ++ rest) ≤
        (l.gap ++ c :: front).length := by
      rw [counted, List.length_append]
      exact Nat.le_add_right _ _
    have replaced := gapLength_replace hrest (.inl rfl) inside (.inl rfl)
    rw [List.append_nil, counted] at replaced
    rw [replaced, List.drop_left]
  have ahead : (l.onto (l.gap ++ c :: front ++ tail)).ahead = c :: (front ++ tail) := by
    refine Lexicon.drop_gapLength_append inFront fun more lead => hlead more ?_
    rw [← lead]
    exact (commentLead_append htail.breaks hopen hlead).symm
  refine ⟨ahead, ?_⟩
  have spelled := (l.onto (l.gap ++ c :: front ++ tail)).gap_append_ahead
  have text : (l.onto (l.gap ++ c :: front ++ tail)).rest = l.gap ++ c :: (front ++ tail) := by
    simp [onto]
  rw [ahead, text] at spelled
  exact List.append_cancel_right spelled

/-- A token that fits in the front part of a text begins there. -/
theorem exists_front {behind : List Char} (htext : l.rest = cs ++ rest) (ahead : l.ahead = c :: behind)
    (fits : l.gap.length < cs.length) : ∃ front, cs = l.gap ++ c :: front ∧ behind = front ++ rest := by
  have spelled := l.gap_append_ahead
  rw [ahead, htext] at spelled
  rcases List.append_eq_append_iff.1 spelled with ⟨front, hcs, hbehind⟩ | ⟨more, hgap, -⟩
  · cases front with
    | nil =>
      rw [hcs, List.append_nil] at fits
      exact absurd fits (Nat.lt_irrefl _)
    | cons d front =>
      cases hbehind
      exact ⟨front, hcs, rfl⟩
  · rw [hgap, List.length_append] at fits
    exact absurd fits (Nat.not_lt.2 (Nat.le_add_right _ _))

/-- The first token of the front part `cs` of a text is the same whatever stands behind the part. -/
theorem next_onto (hlx : l.lexicon.delimiter = []) (hrest : Breaks rest) (htail : Ends tail)
    (htext : l.rest = cs ++ rest) (sound : ∀ e, l.next.1.kind ≠ .error e)
    (hkind : l.next.1.kind ≠ .eof) (fits : l.next.1.source.length ≤ cs.length) :
    l.next.2.rest = cs.drop l.next.1.source.length ++ rest ∧ (l.onto (cs ++ tail)).next =
      (l.next.1, l.next.2.onto (cs.drop l.next.1.source.length ++ tail)) := by
  obtain ⟨c, behind, ahead⟩ := List.exists_cons_of_ne_nil (ahead_ne_nil hkind)
  have next := next_of_ahead_cons ahead
  have hgap := Lexicon.commentLead_ahead ahead
  have inText := scan_fits hlx ahead sound
  rw [next] at sound fits ⊢
  -- The token begins in the front part, which is the gap, `c` and `front`.
  obtain ⟨front, rfl, rfl⟩ : ∃ front, cs = l.gap ++ c :: front ∧ behind = front ++ rest := by
    refine exists_front htext ahead (Nat.lt_of_lt_of_le ?_ fits)
    simp [cut, source]
  have inFront : (scan l.lexicon l.ordinal c (front ++ rest)).2 ≤ front.length := by
    simp only [cut, source, List.length_append, List.length_cons, List.length_take] at fits inText
    omega
  have scanCut := scan_cut hlx hrest hgap sound inFront
  rw [scanCut] at sound inFront ⊢
  have hgapFront : ∀ more, commentLead l.lexicon.dialect.hashComments (c :: front) ≠
      .comment more := by
    intro more lead
    obtain ⟨m, hm⟩ := exists_comment_append hrest lead
    exact hgap m hm
  have soundFront : ∀ e, (scan l.lexicon l.ordinal c front).1 ≠ .error e := sound
  have hopen : commentLead l.lexicon.dialect.hashComments (c :: front) ≠ .unterminated := by
    intro lead
    simp [scan, lead] at soundFront
  have scanTail := (scan_append hlx htail hgapFront soundFront).1
  obtain ⟨aheadTail, gapTail⟩ := ahead_onto hrest htail htext hopen hgapFront
  have tokenPosTail : (l.onto (l.gap ++ c :: front ++ tail)).tokenPos = l.tokenPos := by
    rw [tokenPos, gapTail]
    rfl
  have lexicon : (l.onto (l.gap ++ c :: front ++ tail)).lexicon = l.lexicon := rfl
  have ordinal : (l.onto (l.gap ++ c :: front ++ tail)).ordinal = l.ordinal := rfl
  rw [next_of_ahead_cons aheadTail, lexicon, ordinal, scanTail]
  generalize (scan l.lexicon l.ordinal c front).1 = kind
  generalize (scan l.lexicon l.ordinal c front).2 = more at inFront ⊢
  have taken (y : List Char) : (front ++ y).take more = front.take more :=
    List.take_append_of_le_length inFront
  have dropped (y : List Char) : (front ++ y).drop more = front.drop more ++ y :=
    List.drop_append_of_le_length inFront
  have size : (l.cut kind c (front ++ rest) more).1.source.length = l.gap.length + (more + 1) := by
    simp [cut, source, taken, inFront]
  rw [size, List.drop_length_add_append, List.drop_succ_cons]
  refine ⟨dropped rest, ?_⟩
  simp only [cut, gapTail, tokenPosTail, taken, dropped]
  rfl

/-- In a gap alone nothing is ahead, nor in one without the blanks at its end. -/
theorem next_onto_gap {gap b : List Char} (hends : Breaks l.ahead) (hgap : l.gap = gap ++ b)
    (hb : AllBlank b) : (l.onto gap).next.1 =
      { kind := .eof, gap, lexeme := [], pos := l.pos.after gap } := by
  have counted : Token.gapLength l.lexicon.dialect.hashComments 0 (l.gap ++ l.ahead) =
      l.gap.length := by
    rw [gap_append_ahead, length_gap]
    rfl
  have replaced := gapLength_replace hends (.inl rfl) (Nat.le_of_eq counted) (.inl rfl)
  rw [List.append_nil, counted, hgap] at replaced
  have whole : (l.onto gap).gap = gap := by
    have length := gapLength_cut_blanks hb replaced
    have all := List.take_length (l := gap)
    rw [← length] at all
    exact all
  have ahead : (l.onto gap).ahead = [] := by
    have spelled := (l.onto gap).gap_append_ahead
    rw [whole] at spelled
    exact List.append_right_eq_self.1 spelled
  rw [next, ahead, whole, tokenPos, whole]
  rfl

theorem next_of_tokens {t : Token} {ts : List Token} (h : l.tokens = t :: ts) :
    l.next.1 = t ∧ (t.kind ≠ .eof → l.next.2.tokens = ts) := by
  by_cases hkind : l.next.1.kind = .eof
  · rw [tokens_of_eof hkind] at h
    cases h
    exact ⟨rfl, fun hne => absurd hkind hne⟩
  · rw [tokens_of_ne_eof hkind] at h
    cases h
    exact ⟨rfl, fun _ => rfl⟩

theorem flatMap_source_tokens (l : Lexer) : l.tokens.flatMap source = l.rest :=
  l.tiles.source_eq

theorem gap_next (l : Lexer) : l.next.1.gap = l.gap := by
  unfold next
  split <;> rfl

theorem pos_next (l : Lexer) : l.next.1.pos = l.tokenPos := by
  unfold next
  split <;> rfl

theorem pos_after_next (l : Lexer) : l.next.2.pos = l.pos.after l.next.1.source := by
  unfold next
  split
  · simp [source, tokenPos]
  · simp [cut, source, tokenPos]

theorem lexicon_next (l : Lexer) : l.next.2.lexicon = l.lexicon := by
  unfold next
  split <;> rfl

/-- In front of a token no text ends. -/
theorem ne_eof_of_tokens {ts more : List Token} {t u : Token} (h : l.tokens = ts ++ t :: more)
    (hu : u ∈ ts) : u.kind ≠ .eof := by
  obtain ⟨front, last, split, -, -, inner⟩ := l.tiles.ends
  have front_eq : front = ts ++ (t :: more).dropLast := by
    rw [← List.dropLast_append_of_ne_nil (List.cons_ne_nil t more), ← h, split, List.dropLast_concat]
  exact (inner u (front_eq ▸ List.mem_append_left _ hu)).1

/-- The lexer in front of one of the tokens. -/
theorem exists_at {ts more : List Token} {t : Token} (h : l.tokens = ts ++ t :: more) :
    ∃ l' : Lexer, l'.lexicon = l.lexicon ∧ l'.tokens = t :: more := by
  have kinds (u : Token) (hu : u ∈ ts) : u.kind ≠ .eof := ne_eof_of_tokens h hu
  induction ts generalizing l with
  | nil => exact ⟨l, rfl, h⟩
  | cons u ts ih =>
    obtain ⟨rfl, behind⟩ := next_of_tokens h
    obtain ⟨l', lexicon, tokens⟩ := ih (behind (kinds _ List.mem_cons_self))
      fun v hv => kinds v (List.mem_cons_of_mem _ hv)
    exact ⟨l', lexicon.trans l.lexicon_next, tokens⟩

/-- Ahead of the lexer is the text of its tokens without the first gap. -/
theorem ahead_of_tokens {ts : List Token} {t : Token} (h : l.tokens = t :: ts) :
    l.ahead = t.lexeme ++ ts.flatMap source := by
  have text := l.flatMap_source_tokens
  obtain ⟨first, -⟩ := next_of_tokens h
  rw [h, List.flatMap_cons, source, ← first, gap_next, List.append_assoc,
    ← l.gap_append_ahead] at text
  rw [← first]
  exact (List.append_cancel_left text).symm

/-- A token is read off the text that begins with it. -/
theorem scanned_of_tokens {ts more : List Token} {t : Token} (h : l.tokens = ts ++ t :: more)
    (ht : t.kind ≠ .eof) :
    ∃ n c cs, t.lexeme ++ more.flatMap source = c :: cs ∧ isBlank c = false ∧
      (∀ m, commentLead l.lexicon.dialect.hashComments (c :: cs) ≠ .comment m) ∧
      t.kind = (scan l.lexicon n c cs).1 ∧
      t.lexeme = c :: cs.take (scan l.lexicon n c cs).2 := by
  obtain ⟨l', lexicon, tokens⟩ := exists_at h
  obtain ⟨rfl, -⟩ := next_of_tokens tokens
  obtain ⟨c, cs, ahead⟩ := List.exists_cons_of_ne_nil (ahead_ne_nil ht)
  refine ⟨l'.ordinal, c, cs, (ahead_of_tokens tokens).symm.trans ahead, isBlank_of_ahead ahead, ?_⟩
  rw [← lexicon, next_of_ahead_cons ahead]
  exact ⟨Lexicon.commentLead_ahead ahead, rfl, rfl⟩

/-- The tokens of the front part of a text are the same whatever stands behind the part. -/
theorem exists_behind {ts more : List Token} {last : Token} {front : List Char}
    (hlx : l.lexicon.delimiter = []) (h : l.tokens = ts ++ last :: more)
    (hts : ∀ t ∈ ts, t.kind ≠ .eof ∧ ∀ e, t.kind ≠ .error e) (hrest : Breaks rest)
    (htext : last.source ++ more.flatMap source = front ++ rest) :
    ∃ l' : Lexer, l'.lexicon = l.lexicon ∧ l'.tokens = last :: more ∧
      l'.pos = l.pos.after (ts.flatMap source) ∧ ∀ tail, Ends tail →
        (l.onto (ts.flatMap source ++ front ++ tail)).tokens = ts ++ (l'.onto (front ++ tail)).tokens := by
  induction ts generalizing l with
  | nil => exact ⟨l, rfl, h, rfl, fun _ _ => rfl⟩
  | cons t ts ih =>
    obtain ⟨rfl, behind⟩ := next_of_tokens h
    obtain ⟨hkind, sound⟩ := hts _ List.mem_cons_self
    have text : l.rest = (l.next.1.source ++ (ts.flatMap source ++ front)) ++ rest := by
      rw [← l.flatMap_source_tokens, h, List.cons_append, List.flatMap_cons, List.flatMap_append,
        List.flatMap_cons, htext]
      simp only [List.append_assoc]
    obtain ⟨l', lexicon, tokens, place, onto⟩ := ih (by rw [lexicon_next, hlx]) (behind hkind)
      fun t ht => hts t (List.mem_cons_of_mem _ ht)
    refine ⟨l', lexicon.trans l.lexicon_next, tokens, ?_, fun tail htail => ?_⟩
    · rw [place, pos_after_next, List.flatMap_cons, Position.after_append]
    · obtain ⟨-, next⟩ := next_onto hlx hrest htail text sound hkind (by simp)
      rw [List.drop_left] at next
      have kind : (l.onto (l.next.1.source ++ (ts.flatMap source ++ front) ++ tail)).next.1.kind ≠
          .eof := by
        rw [next]
        exact hkind
      rw [List.flatMap_cons, List.append_assoc l.next.1.source, tokens_of_ne_eof kind, next,
        onto tail htail]
      rfl

/-- The tokens in front of one that begins with a break are the tokens of the text in front of it,
with or without the blanks at its end. -/
theorem tokens_onto_front {ts more : List Token} {last : Token} {gap b : List Char}
    (hlx : l.lexicon.delimiter = []) (h : l.tokens = ts ++ last :: more)
    (hts : ∀ t ∈ ts, t.kind ≠ .eof ∧ ∀ e, t.kind ≠ .error e)
    (hbreaks : Breaks (last.lexeme ++ more.flatMap source)) (hgap : last.gap = gap ++ b)
    (hb : AllBlank b) : (l.onto (ts.flatMap source ++ gap)).tokens =
      ts ++ [{ kind := .eof, gap, lexeme := [], pos := l.pos.after (ts.flatMap source ++ gap) }] := by
  have stop : Breaks (b ++ (last.lexeme ++ more.flatMap source)) := by
    cases b with
    | nil => exact hbreaks
    | cons c b =>
      exact (ends_cons (isStop_of_isBlank (hb c List.mem_cons_self)) _).breaks
  have split : last.source ++ more.flatMap source =
      gap ++ (b ++ (last.lexeme ++ more.flatMap source)) := by
    rw [source, hgap]
    simp
  obtain ⟨l', -, tokens, place, onto⟩ := exists_behind hlx h hts stop split
  obtain ⟨first, -⟩ := next_of_tokens tokens
  have eof := next_onto_gap (ahead_of_tokens tokens ▸ hbreaks) (l'.gap_next ▸ first ▸ hgap) hb
  have front := onto [] ends_nil
  rw [List.append_nil, List.append_nil] at front
  rw [front, tokens_of_eof (by rw [eof]), eof, place, ← Position.after_append]

/-- The tokens in front of one that begins with a break are the tokens of the text in front of it. -/
theorem tokens_onto {ts more : List Token} {last : Token} (hlx : l.lexicon.delimiter = [])
    (h : l.tokens = ts ++ last :: more)
    (hts : ∀ t ∈ ts, t.kind ≠ .eof ∧ ∀ e, t.kind ≠ .error e)
    (hbreaks : Breaks (last.lexeme ++ more.flatMap source)) :
    (l.onto (ts.flatMap source ++ last.gap)).tokens =
      ts ++ [{ kind := .eof, gap := last.gap, lexeme := [], pos := last.pos }] := by
  have tiles := l.tiles
  rw [h] at tiles
  have place : last.pos = l.pos.after (ts.flatMap source ++ last.gap) := by
    rw [tiles.behind.head.1, Position.after_append]
  rw [place]
  exact tokens_onto_front hlx h hts hbreaks (List.append_nil _).symm (by simp [AllBlank])

/-- The lexer at the next token, its gap passed over. -/
def settled (l : Lexer) : Lexer := { l with rest := l.ahead, pos := l.tokenPos }

/-- A lexer that starts at the next token takes it without its gap. -/
theorem next_settled (l : Lexer) : l.settled.next = ({ l.next.1 with gap := [] }, l.next.2) := by
  have length : l.settled.gapLength = 0 := gapLength_behind _ _ _
  have gap : l.settled.gap = [] := by rw [Lexer.gap, length, List.take_zero]
  have ahead : l.settled.ahead = l.ahead := by
    rw [Lexer.ahead, length, List.drop_zero]
    rfl
  have place : l.settled.tokenPos = l.tokenPos := by
    rw [tokenPos, gap]
    rfl
  rw [next, next, ahead]
  split
  · rw [gap, place]
    rfl
  · simp only [cut, gap, place]
    rfl

/-- A lexer that starts at the next token reads the same tokens. -/
theorem tokens_settled {t : Token} {ts : List Token} (h : l.tokens = t :: ts) :
    l.settled.tokens = { t with gap := [] } :: ts := by
  obtain ⟨rfl, hrest⟩ := next_of_tokens h
  by_cases hkind : l.next.1.kind = .eof
  · have eof : l.settled.next.1.kind = .eof := by
      rw [next_settled]
      exact hkind
    rw [tokens_of_eof hkind] at h
    cases h
    rw [tokens_of_eof eof, next_settled]
  · have kind : l.settled.next.1.kind ≠ .eof := by
      rw [next_settled]
      exact hkind
    rw [tokens_of_ne_eof kind, next_settled, hrest hkind]

end Lexer

end BoundSql
