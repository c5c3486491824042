import BoundSql.Proofs.Script.Piece
import BoundSql.Proofs.Token.Terminated

/-!
# What follows a delimiter

A piece does not depend on what stands behind the delimiter that ends it, up to one character, which
may become a dash: `Lexer.piece_replace`. Behind a semicolon not even that character counts, see
`Lexer.piece_onto`.
-/

namespace BoundSql

open Text Token

namespace Lexer

variable {l : Lexer} {limit : Nat} {blocks : BlockState} {start : Option Nat} {p : Piece}

/-- A token begins where it begins in another text, as long as it opens no comment there. -/
theorem onto_ahead {c : Char} {cs cs' : List Char} (ahead : l.ahead = c :: cs)
    (lead : ∀ more, commentLead l.lexicon.dialect.hashComments (c :: cs') ≠ .comment more) :
    (l.onto (l.gap ++ c :: cs')).gap = l.gap ∧ (l.onto (l.gap ++ c :: cs')).ahead = c :: cs' := by
  have gap : Gap l.lexicon.dialect.hashComments l.gap l.ahead := gap_take _ _
  rw [ahead] at gap
  have none : Token.gapLength l.lexicon.dialect.hashComments 0 (c :: cs') = 0 := by
    rw [Token.gapLength, if_neg (by simp [isBlank_of_ahead ahead])]
    split
    · exact absurd ‹_› (lead _)
    · rfl
  have length : (l.onto (l.gap ++ c :: cs')).gapLength = l.gap.length := by
    have gap' : Gap l.lexicon.dialect.hashComments l.gap (c :: cs') := gap.replace rfl
    have counted := gapLength_of_gap gap'
    rw [none] at counted
    exact counted
  exact ⟨by rw [Lexer.gap, length]; exact List.take_left,
    by rw [Lexer.ahead, length]; exact List.drop_left⟩

/-- A token that ends in front of `t` is taken off any text with the same front part that goes on
alike. -/
theorem next_alike {cs t t' : List Char} (same : Alike l.lexicon t t') (nonempty : t ≠ [])
    (text : l.rest = cs ++ t) (sound : ∀ e, l.next.1.kind ≠ .error e) (kind : l.next.1.kind ≠ .eof)
    (fits : l.next.1.source.length ≤ cs.length) : (l.onto (cs ++ t')).next =
      (l.next.1, l.next.2.onto (cs.drop l.next.1.source.length ++ t')) := by
  obtain ⟨c, behind, ahead⟩ := List.exists_cons_of_ne_nil (ahead_ne_nil kind)
  have next := next_of_ahead_cons ahead
  have gap := Lexicon.commentLead_ahead ahead
  rw [next] at sound fits ⊢
  -- The token begins in the front part, which is the gap, `c` and `front`.
  obtain ⟨front, rfl, rfl⟩ : ∃ front, cs = l.gap ++ c :: front ∧ behind = front ++ t := by
    refine exists_front text ahead (Nat.lt_of_lt_of_le ?_ fits)
    simp [cut, source]
  have short : (scan l.lexicon l.ordinal c (front ++ t)).2 ≤ front.length := by
    have more := List.length_pos_iff.2 nonempty
    simp only [cut, source, List.length_append, List.length_cons, List.length_take] at fits
    omega
  have lead := commentLead_keeps same.head gap sound short
  have scanned := scan_keeps same gap sound short
  obtain ⟨gapTail, aheadTail⟩ := onto_ahead ahead lead
  have whole : l.gap ++ c :: front ++ t' = l.gap ++ c :: (front ++ t') := by simp
  have placeTail : (l.onto (l.gap ++ c :: (front ++ t'))).tokenPos = l.tokenPos := by
    rw [tokenPos, gapTail]
    rfl
  have lexicon : (l.onto (l.gap ++ c :: (front ++ t'))).lexicon = l.lexicon := rfl
  have ordinal : (l.onto (l.gap ++ c :: (front ++ t'))).ordinal = l.ordinal := rfl
  rw [whole, next_of_ahead_cons aheadTail, lexicon, ordinal, scanned]
  generalize (scan l.lexicon l.ordinal c (front ++ t)).1 = kind
  generalize (scan l.lexicon l.ordinal c (front ++ t)).2 = more at short ⊢
  have taken (y : List Char) : (front ++ y).take more = front.take more :=
    List.take_append_of_le_length short
  have dropped (y : List Char) : (front ++ y).drop more = front.drop more ++ y :=
    List.drop_append_of_le_length short
  have size : (l.cut kind c (front ++ t) more).1.source.length = l.gap.length + (more + 1) := by
    simp [cut, source, taken, short]
  rw [size, List.drop_length_add_append, List.drop_succ_cons]
  simp only [cut, gapTail, placeTail, taken, dropped]
  rfl

/-- The terminator is taken off again in front of a text that begins alike, or with a dash. -/
theorem next_terminator (firm : Firm l.lexicon.delimiter)
    (h : l.next.1.kind = .punct .semicolon) :
    l.rest = l.gap ++ (terminator l.lexicon.delimiter ++ l.next.2.rest) ∧
      ∀ x, OrDash l.next.2.rest x →
        (l.onto (l.gap ++ (terminator l.lexicon.delimiter ++ x))).next =
          (l.next.1, l.next.2.onto x) := by
  obtain ⟨c, cs, ahead⟩ := List.exists_cons_of_ne_nil (ahead_ne_nil (l := l) (by simp [h]))
  have next := next_of_ahead_cons ahead
  have gap := Lexicon.commentLead_ahead ahead
  have kind : (scan l.lexicon l.ordinal c cs).1 = .punct .semicolon := by
    rw [next] at h
    exact h
  obtain ⟨⟨rest, spelled⟩, scanned⟩ := scan_eq_semicolon kind
  obtain ⟨d, mark, hmark⟩ := List.exists_cons_of_ne_nil (terminator_ne_nil l.lexicon.delimiter)
  rw [hmark, List.cons_append] at spelled
  obtain ⟨rfl, rfl⟩ := List.cons.inj spelled
  have lead := commentLead_of_semicolon kind gap
  rw [hmark, List.length_cons, Nat.add_sub_cancel] at scanned
  rw [scanned] at next
  have text : l.rest = l.gap ++ c :: (mark ++ rest) := by rw [← l.gap_append_ahead, ahead]
  have taken (y : List Char) : (mark ++ y).take mark.length = mark := List.take_left
  have dropped (y : List Char) : (mark ++ y).drop mark.length = y := List.drop_left
  have behind : l.next.2.rest = rest := by
    rw [next]
    exact dropped rest
  refine ⟨by rw [hmark, text, behind]; rfl, fun x hx => ?_⟩
  rw [behind] at hx
  obtain ⟨lead', scanned'⟩ := @scan_terminator l.lexicon firm l.ordinal c mark rest x hmark lead hx
  obtain ⟨gapTail, aheadTail⟩ := @onto_ahead l c _ (mark ++ x) ahead (by simp [lead'])
  have placeTail : (l.onto (l.gap ++ c :: (mark ++ x))).tokenPos = l.tokenPos := by
    rw [tokenPos, gapTail]
    rfl
  have lexicon : (l.onto (l.gap ++ c :: (mark ++ x))).lexicon = l.lexicon := rfl
  have ordinal : (l.onto (l.gap ++ c :: (mark ++ x))).ordinal = l.ordinal := rfl
  rw [hmark, List.cons_append, next_of_ahead_cons aheadTail, lexicon, ordinal, scanned', next]
  simp only [cut, gapTail, placeTail, taken, dropped]
  rfl

/-- What stands behind the terminator of a piece has no part in the piece, up to one character that
may become a dash. -/
theorem piece_replace (firm : Firm l.lexicon.delimiter) (h : l.piece limit blocks start = .ok p)
    (ended : p.terminator.kind = .punct .semicolon) :
    ∃ read, l.rest = read ++ (terminator l.lexicon.delimiter ++ p.after.rest) ∧
      ∀ x, OrDash p.after.rest x →
        (l.onto (read ++ (terminator l.lexicon.delimiter ++ x))).piece limit blocks start =
          .ok { p with after := p.after.onto x } := by
  induction hn : l.rest.length using Nat.strongRecOn generalizing l blocks start p with
  | ind n ih =>
    rcases piece_cases h with ⟨ends, rfl⟩ | ⟨inner, q, rest, rfl⟩
    · obtain ⟨text, next⟩ := next_terminator firm (next_semicolon ended)
      refine ⟨l.gap, text, fun x hx => ?_⟩
      have next := next x hx
      have same : (l.onto (l.gap ++ (terminator l.lexicon.delimiter ++ x))).nextIn blocks =
          l.nextIn blocks := by
        rw [nextIn, next]
        rfl
      rw [piece_of_true (by rw [atEnd, same]; exact ends), same, next]
    · obtain ⟨kind, sound⟩ := next_inner inner
      obtain ⟨read, text, again⟩ :=
        ih _ (hn ▸ length_rest_next_lt kind) (by rw [lexicon_next]; exact firm) rest ended rfl
      rw [lexicon_next] at text again
      have whole : l.rest =
          l.next.1.source ++ read ++ (terminator l.lexicon.delimiter ++ q.after.rest) := by
        rw [List.append_assoc, ← text, source_next_append]
      refine ⟨l.next.1.source ++ read, whole, fun x hx => ?_⟩
      have nonempty : terminator l.lexicon.delimiter ++ q.after.rest ≠ [] :=
        fun nothing => terminator_ne_nil _ (List.append_eq_nil_iff.1 nothing).1
      have next := next_alike (firm.alike hx) nonempty whole sound kind (by simp)
      rw [List.drop_left] at next
      have same : (l.onto (l.next.1.source ++ read ++ (terminator l.lexicon.delimiter ++ x))).nextIn
          blocks = l.nextIn blocks := by
        rw [nextIn, next]
        rfl
      rw [piece_of_false (by rw [atEnd, same]; exact inner), same, next, again x hx]
      rfl

end Lexer

end BoundSql
