import BoundSql.Proofs.Token.Front

/-!
# Reading a statement twice

A script is split with regard to procedural blocks, and each statement found that way is read again
without. `Lexer.tokens_within_split` says that the second reading, which sees no more than the text
of the statement, meets the same tokens at the same places.
-/

namespace BoundSql

open Text Token

namespace Text

theorem dropBytes_append (a b : List Char) : slice.dropBytes (byteLength a) (a ++ b) = some b := by
  induction a with
  | nil => cases b <;> rfl
  | cons c a ih =>
    obtain ⟨n, hn⟩ : ∃ n, byteLength (c :: a) = n + 1 :=
      Nat.exists_eq_add_of_lt (byteLength_pos (List.cons_ne_nil c a))
        |>.imp fun n h => by omega
    have size : n + 1 = c.utf8Size + byteLength a := hn.symm
    rw [hn, List.cons_append, slice.dropBytes, if_pos (by omega), size, Nat.add_sub_cancel_left, ih]

theorem takeBytes_append (a b : List Char) : slice.takeBytes (byteLength a) (a ++ b) = some a := by
  induction a with
  | nil => cases b <;> rfl
  | cons c a ih =>
    obtain ⟨n, hn⟩ : ∃ n, byteLength (c :: a) = n + 1 :=
      Nat.exists_eq_add_of_lt (byteLength_pos (List.cons_ne_nil c a))
        |>.imp fun n h => by omega
    have size : n + 1 = c.utf8Size + byteLength a := hn.symm
    rw [hn, List.cons_append, slice.takeBytes, if_pos (by omega), size, Nat.add_sub_cancel_left, ih]
    rfl

/-- The text that drops out is as long as was asked for. -/
theorem dropBytes_eq_some {n : Nat} {cs rest : List Char} (h : slice.dropBytes n cs = some rest) :
    ∃ front, cs = front ++ rest ∧ byteLength front = n := by
  fun_induction slice.dropBytes n cs with
  | case1 cs =>
    cases h
    exact ⟨[], rfl, rfl⟩
  | case2 => cases h
  | case3 n c cs fits ih =>
    obtain ⟨front, rfl, hfront⟩ := ih h
    refine ⟨c :: front, rfl, ?_⟩
    rw [byteLength, hfront]
    omega
  | case4 => cases h

/-- The part of a text between two of its prefixes. -/
theorem slice_append (a b c : List Char) :
    slice (a ++ b ++ c) (byteLength a) (byteLength (a ++ b)) = b := by
  rw [slice, byteLength_append, if_neg (by omega), List.append_assoc, dropBytes_append,
    Nat.add_sub_cancel_left, Option.bind_some, takeBytes_append, Option.getD_some]

/-- A slice up to the end of the text is the text behind something. -/
theorem exists_of_slice_byteLength {cs : List Char} {n : Nat}
    (h : slice cs n (byteLength cs) ≠ []) :
    ∃ front, cs = front ++ slice cs n (byteLength cs) ∧ byteLength front = n := by
  unfold slice at h ⊢
  split
  · rename_i past
    exact absurd (if_pos past) h
  · rename_i inside
    rw [if_neg inside] at h
    cases dropped : slice.dropBytes n cs with
    | none =>
      rw [dropped] at h
      exact absurd rfl h
    | some rest =>
      obtain ⟨front, rfl, hfront⟩ := dropBytes_eq_some dropped
      have taken := takeBytes_append rest []
      rw [List.append_nil] at taken
      rw [byteLength_append, hfront, Nat.add_sub_cancel_left, Option.bind_some, taken]
      exact ⟨front, rfl, hfront⟩

end Text

namespace Token

/-- The token as it is understood without regard to blocks. -/
def outsideBlocks (t : Token) : Token :=
  { t with kind := if t.kind = .punct .blockSemicolon then .punct .semicolon else t.kind }

/-- The token without the blanks and comments in front of it. -/
def flush (t : Token) : Token := { t with gap := [] }

/-- Outside of blocks a token that ends no statement and is no error is just that. -/
theorem outsideBlocks_inner {t : Token} (h : t.kind ≠ .eof ∧ ∀ e, t.kind ≠ .error e) :
    t.outsideBlocks.kind ≠ .eof ∧ ∀ e, t.outsideBlocks.kind ≠ .error e := by
  unfold outsideBlocks
  split
  · simp
  · exact h

/-- Without regard to blocks a token is what it was in front of the nesting. -/
theorem outsideBlocks_step (d : Dialect) (s : BlockState) {t : Token}
    (ht : t.kind ≠ .punct .blockSemicolon) : (s.step d t).2.outsideBlocks = t := by
  have same : (s.step d t).2 = { t with kind := (s.step d t).2.kind } := rfl
  rcases s.kind_step d t with kept | ⟨semicolon, changed⟩
  · rw [same, kept, outsideBlocks, if_neg ht]
  · rw [same, changed, outsideBlocks, if_pos rfl, ← semicolon]

/-- Outside of blocks a terminator stays one. -/
theorem outsideBlocks_terminator {t : Token} (h : t.kind = .eof ∨ t.kind = .punct .semicolon) :
    t.outsideBlocks.kind = t.kind := by
  rcases h with kind | kind <;> simp [outsideBlocks, kind]

end Token

namespace Lexer

variable {l : Lexer}

/-- A token is the end of the input or was scanned somewhere. -/
theorem scanned_of_mem_tokens {t : Token} (h : t ∈ l.tokens) : t.kind = .eof ∧ t.lexeme = [] ∨
    ∃ n c cs, t.kind = (scan l.lexicon n c cs).1 ∧
      t.lexeme = c :: cs.take (scan l.lexicon n c cs).2 := by
  induction hn : l.rest.length using Nat.strongRecOn generalizing l with
  | ind n ih =>
    have first : l.next.1.kind = .eof ∧ l.next.1.lexeme = [] ∨
        ∃ n c cs, l.next.1.kind = (scan l.lexicon n c cs).1 ∧
          l.next.1.lexeme = c :: cs.take (scan l.lexicon n c cs).2 := by
      unfold next
      split
      · exact .inl ⟨rfl, rfl⟩
      · exact .inr ⟨_, _, _, rfl, rfl⟩
    by_cases kind : l.next.1.kind = .eof
    · rw [tokens_of_eof kind, List.mem_singleton] at h
      rwa [h]
    · rw [tokens_of_ne_eof kind] at h
      rcases List.mem_cons.1 h with rfl | member
      · exact first
      · rw [← lexicon_next]
        exact ih _ (hn ▸ length_rest_next_lt kind) member rfl

theorem ne_blockSemicolon_of_mem_tokens (hlx : l.lexicon.delimiter = []) {t : Token}
    (h : t ∈ l.tokens) : t.kind ≠ .punct .blockSemicolon := by
  rcases scanned_of_mem_tokens h with ⟨eof, -⟩ | ⟨n, c, cs, kind, -⟩
  · rw [eof]
    simp
  · rw [kind]
    exact scan_ne_blockSemicolon hlx n c cs

/-- Understood without regard to blocks, the tokens of a script are the tokens of its text. -/
theorem outsideBlocks_splitTokens (hlx : l.lexicon.delimiter = []) :
    l.splitTokens.map outsideBlocks = l.tokens := by
  have tracked (s : BlockState) {ts : List Token}
      (hts : ∀ t ∈ ts, t.kind ≠ .punct .blockSemicolon) :
      ((s.track l.lexicon.dialect ts).map Prod.fst).map outsideBlocks = ts := by
    induction ts generalizing s with
    | nil => rfl
    | cons t ts ih =>
      have head := outsideBlocks_step l.lexicon.dialect s (hts t List.mem_cons_self)
      have tail := ih (s.step l.lexicon.dialect t).1 fun t ht => hts t (List.mem_cons_of_mem _ ht)
      exact List.cons_eq_cons.2 ⟨head, tail⟩
  exact tracked _ fun t member => ne_blockSemicolon_of_mem_tokens hlx member

/-- A statement ends in front of a stop. -/
theorem ends_of_terminator {ts more : List Token} {last : Token} (hlx : l.lexicon.delimiter = [])
    (h : l.tokens = ts ++ last :: more) (hlast : last.kind = .eof ∨ last.kind = .punct .semicolon) :
    Ends (last.lexeme ++ more.flatMap source) := by
  have member : last ∈ l.tokens := by simp [h]
  rcases hlast with eof | semicolon
  · obtain ⟨front, final, hfront, -, empty, filled⟩ := l.tiles.ends
    rw [h] at hfront
    rcases List.append_eq_append_iff.1 hfront with ⟨others, rfl, hothers⟩ | ⟨others, rfl, hothers⟩
    · cases others with
      | nil =>
        cases hothers
        rw [empty]
        exact ends_nil
      | cons t others =>
        cases hothers
        exact absurd eof (filled _ (by simp)).1
    · cases others with
      | nil =>
        cases hothers
        rw [empty]
        exact ends_nil
      | cons t others => simp at hothers
  · rcases scanned_of_mem_tokens member with ⟨eof, -⟩ | ⟨n, c, cs, kind, lexeme⟩
    · rw [eof] at semicolon
      cases semicolon
    · obtain ⟨rfl, -⟩ := scan_semicolon hlx (kind.symm.trans semicolon)
      rw [lexeme]
      exact ends_cons (by decide) _

/-- The lexer at the first of its tokens, bounded by the terminator of the statement, reads the tokens
of the statement. -/
theorem tokens_settled_onto {first last : Token} {ts more : List Token}
    (hlx : l.lexicon.delimiter = []) (h : l.tokens = first :: ts ++ last :: more)
    (inner : ∀ t ∈ first :: ts, t.kind ≠ .eof ∧ ∀ e, t.kind ≠ .error e)
    (terminator : last.kind = .eof ∨ last.kind = .punct .semicolon) :
    (l.settled.onto (first.lexeme ++ ts.flatMap source ++ last.gap)).tokens =
      first.flush :: ts ++ [{ kind := .eof, gap := last.gap, lexeme := [], pos := last.pos }] := by
  have settled : l.settled.tokens = first.flush :: ts ++ last :: more := tokens_settled h
  refine tokens_onto (l := l.settled) hlx settled ?_ (ends_of_terminator hlx h terminator).breaks
  intro t member
  rcases List.mem_cons.1 member with rfl | member
  · exact inner first List.mem_cons_self
  · exact inner t (List.mem_cons_of_mem _ member)

/-- A lexer for the text from the first of its tokens to a later one is bounded by the latter. -/
theorem within_eq_settled_onto {lx : Lexicon} {text : List Char} {pos : Position}
    {first last : Token} {ts more : List Token}
    (h : (within lx text pos (byteLength text)).tokens = first :: ts ++ last :: more)
    (nonempty : first.lexeme ≠ []) :
    within lx text first.pos last.pos.offset =
      (within lx text pos (byteLength text)).settled.onto
        (first.lexeme ++ ts.flatMap source ++ last.gap) := by
  generalize hl : within lx text pos (byteLength text) = l at h
  have rest : l.rest = slice text pos.offset (byteLength text) := by
    rw [← hl]
    simp [within, ofText]
  have tiles := l.tiles
  rw [h] at tiles
  have lead := tiles.head.1
  have stop := tiles.behind.head.1
  have spelled : first.gap ++ (first.lexeme ++ ts.flatMap source ++ last.gap) ++
      (last.lexeme ++ more.flatMap source) = l.rest := by
    rw [← l.flatMap_source_tokens, h]
    simp [source]
  -- The lexer stands behind the first `pos.offset` bytes of the text.
  obtain ⟨front, htext, hfront⟩ : ∃ front,
      text = front ++ slice text pos.offset (byteLength text) ∧ byteLength front = pos.offset := by
    refine exists_of_slice_byteLength fun nothing => nonempty ?_
    rw [rest, nothing] at spelled
    simp only [List.append_eq_nil_iff] at spelled
    exact spelled.1.2.1.1
  rw [← rest, ← spelled] at htext
  have start : first.pos.offset = byteLength (front ++ first.gap) := by
    rw [lead, Position.offset_after, ← hl, byteLength_append, hfront]
    rfl
  have bound : last.pos.offset =
      byteLength (front ++ first.gap ++ (first.lexeme ++ ts.flatMap source ++ last.gap)) := by
    rw [stop, ← Position.after_append, Position.offset_after, ← hl]
    simp only [List.flatMap_cons, source, byteLength_append, hfront]
    simp only [within, ofText]
    omega
  have inside : slice text first.pos.offset (min last.pos.offset (byteLength text)) =
      first.lexeme ++ ts.flatMap source ++ last.gap := by
    have le : last.pos.offset ≤ byteLength text := by
      rw [bound, htext]
      simp only [byteLength_append]
      omega
    rw [Nat.min_eq_left le, start, bound, htext]
    have parts := slice_append (front ++ first.gap) (first.lexeme ++ ts.flatMap source ++ last.gap)
      (last.lexeme ++ more.flatMap source)
    simpa only [List.append_assoc] using parts
  have place : l.settled.pos = first.pos := by
    rw [← (next_of_tokens h).1, pos_next]
    rfl
  have fresh : within lx text first.pos last.pos.offset =
      l.settled.onto (slice text first.pos.offset (min last.pos.offset (byteLength text))) := by
    rw [within, ofText, ← place, ← hl]
    rfl
  rw [fresh, inside]

/-- The tokens of a statement that was found in a script are read again from the statement alone, at
the same places. -/
theorem tokens_within_split (d : Dialect) (text : List Char) (pos : Position)
    {first last : Token} {ts more : List Token}
    (split : (within { dialect := d } text pos (byteLength text)).splitTokens =
      first :: ts ++ last :: more)
    (inner : ∀ t ∈ first :: ts,
      t.kind ≠ .eof ∧ t.kind ≠ .punct .semicolon ∧ ∀ e, t.kind ≠ .error e)
    (terminator : last.kind = .eof ∨ last.kind = .punct .semicolon) :
    (within { dialect := d } text first.pos last.pos.offset).tokens =
      (first.flush :: ts).map outsideBlocks ++
        [{ kind := .eof, gap := last.gap, lexeme := [], pos := last.pos }] := by
  have read := outsideBlocks_splitTokens (l := within { dialect := d } text pos (byteLength text)) rfl
  rw [split, List.map_append, List.map_cons, List.map_cons] at read
  have nonempty : first.outsideBlocks.lexeme ≠ [] := by
    have member : first.outsideBlocks ∈
        (within { dialect := d } text pos (byteLength text)).tokens := by simp [← read]
    rcases scanned_of_mem_tokens member with ⟨eof, -⟩ | ⟨n, c, cs, -, lexeme⟩
    · exact absurd eof (outsideBlocks_inner ⟨(inner first List.mem_cons_self).1,
        (inner first List.mem_cons_self).2.2⟩).1
    · rw [lexeme]
      exact List.cons_ne_nil _ _
  have bounded := within_eq_settled_onto read.symm nonempty
  have reread := tokens_settled_onto rfl read.symm ?_ ?_
  · exact (congrArg tokens bounded).trans reread
  · intro t member
    rw [← List.map_cons] at member
    obtain ⟨u, hu, rfl⟩ := List.mem_map.1 member
    exact outsideBlocks_inner ⟨(inner u hu).1, (inner u hu).2.2⟩
  · rwa [outsideBlocks_terminator terminator]

/-- The semicolon behind `DECLARE` belongs to the statement, which ends with the script. -/
theorem tokens_within_split_declare :
    (within { dialect := .standard } ['D', 'E', 'C', 'L', 'A', 'R', 'E', ';'] .start 8).splitTokens =
        ⟨.keyword .DECLARE, [], ['D', 'E', 'C', 'L', 'A', 'R', 'E'], ⟨0, 1, 1⟩⟩ ::
          [⟨.punct .blockSemicolon, [], [';'], ⟨7, 1, 8⟩⟩] ++ [⟨.eof, [], [], ⟨8, 1, 9⟩⟩] ∧
      (within { dialect := .standard } ['D', 'E', 'C', 'L', 'A', 'R', 'E', ';'] ⟨0, 1, 1⟩ 8).tokens =
        [⟨.keyword .DECLARE, [], ['D', 'E', 'C', 'L', 'A', 'R', 'E'], ⟨0, 1, 1⟩⟩,
          ⟨.punct .semicolon, [], [';'], ⟨7, 1, 8⟩⟩, ⟨.eof, [], [], ⟨8, 1, 9⟩⟩] := by
  have declare : (within { dialect := .standard } ['D', 'E', 'C', 'L', 'A', 'R', 'E', ';'] .start 8).next =
      (⟨.keyword .DECLARE, [], ['D', 'E', 'C', 'L', 'A', 'R', 'E'], ⟨0, 1, 1⟩⟩,
        ⟨{ dialect := .standard }, [';'], ⟨7, 1, 8⟩, 0⟩) := by
    have scanned : scan { dialect := .standard } 0 'D' ['E', 'C', 'L', 'A', 'R', 'E', ';'] =
        (.keyword .DECLARE, 6) := by decide +kernel
    exact (next_of_scan rfl (by exact scanned)).trans rfl
  have semicolon : (Lexer.mk { dialect := .standard } [';'] ⟨7, 1, 8⟩ 0).next =
      (⟨.punct .semicolon, [], [';'], ⟨7, 1, 8⟩⟩,
        ⟨{ dialect := .standard }, [], ⟨8, 1, 9⟩, 0⟩) := rfl
  have eof : (Lexer.mk { dialect := .standard } [] ⟨8, 1, 9⟩ 0).next =
      (⟨.eof, [], [], ⟨8, 1, 9⟩⟩, ⟨{ dialect := .standard }, [], ⟨8, 1, 9⟩, 0⟩) := rfl
  have split : (within { dialect := .standard } ['D', 'E', 'C', 'L', 'A', 'R', 'E', ';'] .start
      8).splitTokens = ⟨.keyword .DECLARE, [], ['D', 'E', 'C', 'L', 'A', 'R', 'E'], ⟨0, 1, 1⟩⟩ ::
        [⟨.punct .blockSemicolon, [], [';'], ⟨7, 1, 8⟩⟩] ++ [⟨.eof, [], [], ⟨8, 1, 9⟩⟩] := by
    rw [splitTokens, tokens_of_ne_eof (by rw [declare]; simp), declare,
      tokens_of_ne_eof (by rw [semicolon]; simp), semicolon,
      tokens_of_eof (by rw [eof]), eof]
    rfl
  refine ⟨split, ?_⟩
  have read := tokens_within_split .standard ['D', 'E', 'C', 'L', 'A', 'R', 'E', ';'] .start split
    (by simp) (.inl rfl)
  exact read

end Lexer

end BoundSql
