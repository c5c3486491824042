import BoundSql.Proofs.Token.Front
import BoundSql.Script.Statement

/-!
# Taking a piece off a script, step by step

What `Lexer.piece`, `Script.nextPiece` and `Script.all` do at one token, at one piece and at one
statement, and what it means that they succeed.
-/

namespace BoundSql

open Text Token

namespace Lexer

variable {l : Lexer} {limit : Nat} {blocks : BlockState} {start : Option Nat} {p : Piece}

/-- The next token as it is understood inside the nesting, with the nesting behind it. -/
def nextIn (l : Lexer) (blocks : BlockState) : BlockState × Token :=
  blocks.step l.lexicon.dialect l.next.1

/-- Whether the next token ends a piece whose first token is at `start`. -/
def atEnd (limit : Nat) (blocks : BlockState) (start : Option Nat) (l : Lexer) :
    Except SqlError Bool :=
  (l.nextIn blocks).2.endsPiece limit (start.getD (l.nextIn blocks).2.pos.offset)

theorem piece_of_error {e : SqlError} (h : l.atEnd limit blocks start = .error e) :
    l.piece limit blocks start = .error e := by
  rw [piece]
  split
  · rename_i e' he
    exact congrArg Except.error (Except.error.inj (he.symm.trans h))
  · rename_i he
    cases he.symm.trans h
  · rename_i he
    cases he.symm.trans h

theorem piece_of_true (h : l.atEnd limit blocks start = .ok true) : l.piece limit blocks start =
    .ok { tokens := [], terminator := (l.nextIn blocks).2, after := l.next.2 } := by
  rw [piece]
  split
  · rename_i he
    cases he.symm.trans h
  · rfl
  · rename_i he
    cases he.symm.trans h

theorem piece_of_false (h : l.atEnd limit blocks start = .ok false) : l.piece limit blocks start =
    (l.next.2.piece limit (l.nextIn blocks).1
      (some (start.getD (l.nextIn blocks).2.pos.offset))).map (Piece.push (l.nextIn blocks).2) := by
  rw [piece]
  split
  · rename_i he
    cases he.symm.trans h
  · rename_i he
    cases he.symm.trans h
  · rfl

/-- A piece is a terminator or begins with a token. -/
theorem piece_cases (h : l.piece limit blocks start = .ok p) :
    (l.atEnd limit blocks start = .ok true ∧
      p = { tokens := [], terminator := (l.nextIn blocks).2, after := l.next.2 }) ∨
    (l.atEnd limit blocks start = .ok false ∧
      ∃ q, l.next.2.piece limit (l.nextIn blocks).1
        (some (start.getD (l.nextIn blocks).2.pos.offset)) = .ok q ∧
          p = q.push (l.nextIn blocks).2) := by
  cases ends : l.atEnd limit blocks start with
  | error e =>
    rw [piece_of_error ends] at h
    cases h
  | ok ended =>
    cases ended with
    | true =>
      rw [piece_of_true ends] at h
      exact .inl ⟨rfl, (Except.ok.inj h).symm⟩
    | false =>
      rw [piece_of_false ends] at h
      refine .inr ⟨rfl, ?_⟩
      generalize l.next.2.piece limit _ _ = rest at h
      cases rest with
      | error e => cases h
      | ok q => exact ⟨q, rfl, (Except.ok.inj h).symm⟩

/-- A token that does not end a piece is neither the end of the input nor an error. -/
theorem next_inner (h : l.atEnd limit blocks start = .ok false) :
    l.next.1.kind ≠ .eof ∧ ∀ e, l.next.1.kind ≠ .error e := by
  have kept : ∀ {kind}, l.next.1.kind = kind → kind ≠ .punct .semicolon →
      (l.nextIn blocks).2.kind = kind := by
    intro kind hkind hne
    rcases blocks.kind_step l.lexicon.dialect l.next.1 with same | ⟨semicolon, -⟩
    · exact same.trans hkind
    · exact absurd (hkind.symm.trans semicolon) hne
  constructor
  · intro eof
    have := kept eof (by simp)
    simp [atEnd, endsPiece, this] at h
  · intro e error
    have := kept error (by simp)
    simp [atEnd, endsPiece, this] at h

/-- A piece that a delimiter ends has that delimiter from its text. -/
theorem next_semicolon (h : (l.nextIn blocks).2.kind = .punct .semicolon) :
    l.next.1.kind = .punct .semicolon := by
  rcases blocks.kind_step l.lexicon.dialect l.next.1 with same | ⟨semicolon, -⟩
  · exact same.symm.trans h
  · exact semicolon

theorem endsPiece_eq_true {first : Nat} {t : Token} (h : t.endsPiece limit first = .ok true) :
    t.kind = .eof ∨ t.kind = .punct .semicolon := by
  unfold endsPiece at h
  split at h
  · exact .inl ‹_›
  · exact .inr ‹_›
  · cases h
  · split at h <;> cases h

/-- A piece is ended by a delimiter or by the end of the input. -/
theorem piece_terminator (h : l.piece limit blocks start = .ok p) :
    p.terminator.kind = .eof ∨ p.terminator.kind = .punct .semicolon := by
  induction hn : l.rest.length using Nat.strongRecOn generalizing l blocks start p with
  | ind n ih =>
    rcases piece_cases h with ⟨ends, rfl⟩ | ⟨inner, q, rest, rfl⟩
    · exact endsPiece_eq_true ends
    · have tail := ih _ (hn ▸ length_rest_next_lt (next_inner inner).1) rest rfl
      exact tail

end Lexer

namespace Place

theorem skipDelimiterLines_of_none {p : Place} (h : delimiterLine? p.rest = none)
    (delimiter : List Char) : p.skipDelimiterLines delimiter = (delimiter, p) := by
  obtain ⟨rest, pos⟩ := p
  cases rest with
  | nil => rw [skipDelimiterLines]
  | cons c cs => rw [skipDelimiterLines, h]

theorem skipDelimiterLines_of_some {p : Place} {d : List Char} {n : Nat}
    (h : delimiterLine? p.rest = some (d, n)) (delimiter : List Char) :
    p.skipDelimiterLines delimiter =
      (p.skip (n - 1 + 1)).skipDelimiterLines (if d = [';'] then [] else d) := by
  obtain ⟨rest, pos⟩ := p
  cases rest with
  | nil => cases h
  | cons c cs => rw [skipDelimiterLines, h]

end Place

namespace Script

variable {s : ParseSettings} {script : Script} {p : Piece}

theorem settle_of_none (h : Place.delimiterLine? script.place.rest = none) (d : Dialect) :
    script.settle d = script := by
  unfold settle
  rw [Place.skipDelimiterLines_of_none h]
  split <;> rfl

theorem nextPiece_of_error {e : SqlError} (h : (script.settle s.dialect).piece s = .error e) :
    script.nextPiece s = (.error e, script.settle s.dialect) := by
  rw [nextPiece]
  split
  · rename_i failed
    cases failed.symm.trans h
    rfl
  · rename_i found
    cases found.symm.trans h

/-- An empty piece is passed over. -/
theorem nextPiece_of_empty (h : (script.settle s.dialect).piece s = .ok p) (empty : p.tokens = [])
    (ended : p.terminator.kind ≠ .eof) :
    script.nextPiece s = ((script.settle s.dialect).behind p).nextPiece s := by
  rw [nextPiece]
  split
  · rename_i failed
    cases failed.symm.trans h
  · rename_i found
    cases found.symm.trans h
    rw [dif_pos ⟨empty, ended⟩]

theorem nextPiece_of_tokens (h : (script.settle s.dialect).piece s = .ok p)
    (full : p.tokens ≠ []) :
    script.nextPiece s = (.ok (some p), (script.settle s.dialect).behind p) := by
  rw [nextPiece]
  split
  · rename_i failed
    cases failed.symm.trans h
  · rename_i found
    cases found.symm.trans h
    rw [dif_neg fun empty => full empty.1]
    simp [full]

/-- An empty piece in front of the end of the input is the end of the script. -/
theorem nextPiece_of_eof (h : (script.settle s.dialect).piece s = .ok p) (empty : p.tokens = [])
    (eof : p.terminator.kind = .eof) :
    script.nextPiece s = (.ok none, (script.settle s.dialect).behind p) := by
  rw [nextPiece]
  split
  · rename_i failed
    cases failed.symm.trans h
  · rename_i found
    cases found.symm.trans h
    rw [dif_neg fun ended => ended.2 eof]
    simp [empty]

theorem next_of_some {rest : Script} (h : script.nextPiece s = (.ok (some p), rest)) :
    script.next s = ((p.read s).map some, rest) := by
  rw [next, h]

theorem next_of_none {rest : Script} (h : script.nextPiece s = (.ok none, rest)) :
    script.next s = (.ok none, rest) := by
  rw [next, h]

theorem next_of_error {rest : Script} {e : SqlError} (h : script.nextPiece s = (.error e, rest)) :
    script.next s = (.error e, rest) := by
  rw [next, h]

theorem all_of_error {e : SqlError} (h : (script.next s).1 = .error e) :
    script.all s = (.error e, (script.next s).2) := by
  rw [all]
  split
  · rename_i found
    cases found.symm.trans h
    rfl
  · rename_i found
    cases found.symm.trans h
  · rename_i found
    cases found.symm.trans h

theorem all_of_none (h : (script.next s).1 = .ok none) :
    script.all s = (.ok [], (script.next s).2) := by
  rw [all]
  split
  · rename_i found
    cases found.symm.trans h
  · rfl
  · rename_i found
    cases found.symm.trans h

theorem all_of_some {st : Statement} (h : (script.next s).1 = .ok (some st)) :
    script.all s = (((script.next s).2.all s).1.map (st :: ·), ((script.next s).2.all s).2) := by
  rw [all]
  split
  · rename_i found
    cases found.symm.trans h
  · rename_i found
    cases found.symm.trans h
  · rename_i found
    cases found.symm.trans h
    rfl

/-! ## One letter -/

/-- A letter that begins no delimiter is a name. -/
theorem scan_letter {lx : Lexicon} (h : lx.delimiter.head? ≠ some 'x') (n : Nat) :
    scan lx n 'x' [] = (.identifier "x", 0) := by
  have noMark : lx.atDelimiter ['x'] = false := by
    cases mark : lx.delimiter with
    | nil => simp [Lexicon.atDelimiter, mark]
    | cons c cs =>
      have other : c ≠ 'x' := by simpa [mark] using h
      simp [Lexicon.atDelimiter, mark, opens, other]
  have lead : commentLead lx.dialect.hashComments ['x'] = .none := rfl
  simp only [scan, lead, noMark]
  rfl

theorem next_letter {lx : Lexicon} (h : lx.delimiter.head? ≠ some 'x') :
    (Lexer.ofText lx ['x'] .start).next =
      (⟨.identifier "x", [], ['x'], .start⟩, ⟨lx, [], ⟨1, 1, 2⟩, 0⟩) :=
  (Lexer.next_of_scan rfl (scan_letter h 0)).trans rfl

theorem tokens_letter {lx : Lexicon} (h : lx.delimiter.head? ≠ some 'x') :
    (Lexer.ofText lx ['x'] .start).tokens =
      [⟨.identifier "x", [], ['x'], .start⟩, ⟨.eof, [], [], ⟨1, 1, 2⟩⟩] := by
  have name := next_letter h
  rw [Lexer.tokens_of_ne_eof (by rw [name]; simp), name, Lexer.tokens_of_eof rfl]
  rfl

/-- The piece that is the text `x`. -/
def letter (dialect : Dialect) (delimiter : List Char) : Piece where
  tokens := [⟨.identifier "x", [], ['x'], .start⟩]
  terminator := ⟨.eof, [], [], ⟨1, 1, 2⟩⟩
  after := ⟨{ dialect, delimiter }, [], ⟨1, 1, 2⟩, 0⟩

theorem piece_letter {s : ParseSettings} (room : 1 ≤ s.maxLength) {delimiter : List Char}
    (h : delimiter.head? ≠ some 'x') :
    (Script.ofText delimiter ['x']).piece s = .ok (letter s.dialect delimiter) := by
  have name := @next_letter { dialect := s.dialect, delimiter } h
  have fits : (Lexer.ofText { dialect := s.dialect, delimiter } ['x'] .start).atEnd s.maxLength
      .start none = .ok false := by
    rw [Lexer.atEnd, Lexer.nextIn, name]
    exact if_neg (Nat.not_lt.2 room)
  have stop : (Lexer.mk { dialect := s.dialect, delimiter } [] ⟨1, 1, 2⟩ 0).piece s.maxLength
      ⟨0, false, false, false, .none⟩ (some 0) =
        .ok ⟨[], ⟨.eof, [], [], ⟨1, 1, 2⟩⟩, ⟨{ dialect := s.dialect, delimiter }, [], ⟨1, 1, 2⟩, 0⟩⟩ := by
    rw [Lexer.piece_of_true rfl]
    rfl
  refine (Lexer.piece_of_false fits).trans ?_
  rw [Lexer.nextIn, name]
  exact congrArg (Except.map _) stop

/-- A name alone is no statement that the grammar knows; it is kept as text. -/
theorem read_letter (s : ParseSettings) (delimiter : List Char) :
    (letter s.dialect delimiter).read s = .ok ⟨"x", .verbatim [.text "x"], ⟨[], []⟩⟩ := by
  have inner : (letter s.dialect delimiter).innerTokens s.dialect =
      [⟨.identifier "x", [], ['x'], .start⟩, ⟨.eof, [], [], ⟨1, 1, 2⟩⟩] :=
    @tokens_letter { dialect := s.dialect } (by simp)
  unfold Piece.read Piece.body
  rw [inner]
  cases s.strictTypes <;> rfl

/-- The script `x` is one statement, in every dialect. -/
theorem all_letter {s : ParseSettings} (room : 1 ≤ s.maxLength)
    {delimiter : List Char} (h : delimiter.head? ≠ some 'x') : (Script.ofText delimiter ['x']).all s =
      (.ok [⟨"x", .verbatim [.text "x"], ⟨[], []⟩⟩], ⟨delimiter, [], ⟨1, 1, 2⟩⟩) := by
  have first : (Script.ofText delimiter ['x']).next s =
      (.ok (some ⟨"x", .verbatim [.text "x"], ⟨[], []⟩⟩), ⟨delimiter, [], ⟨1, 1, 2⟩⟩) := by
    have here : (Script.ofText delimiter ['x']).settle s.dialect = Script.ofText delimiter ['x'] :=
      settle_of_none rfl s.dialect
    have piece := piece_letter room h
    rw [← here] at piece
    rw [Script.next_of_some (Script.nextPiece_of_tokens piece (List.cons_ne_nil _ _)), read_letter,
      here]
    rfl
  have behind : (Script.mk delimiter ⟨[], ⟨1, 1, 2⟩⟩).next s =
      (.ok none, ⟨delimiter, [], ⟨1, 1, 2⟩⟩) := by
    have here : (Script.mk delimiter ⟨[], ⟨1, 1, 2⟩⟩).settle s.dialect = _ :=
      settle_of_none rfl s.dialect
    have nothing : (Script.mk delimiter ⟨[], ⟨1, 1, 2⟩⟩).piece s =
        .ok ⟨[], ⟨.eof, [], [], ⟨1, 1, 2⟩⟩, ⟨{ dialect := s.dialect, delimiter }, [], ⟨1, 1, 2⟩, 0⟩⟩ :=
      Lexer.piece_of_true rfl
    rw [← here] at nothing
    rw [Script.next_of_none (Script.nextPiece_of_eof nothing rfl rfl), here]
    rfl
  rw [Script.all_of_some (congrArg Prod.fst first), first,
    Script.all_of_none (congrArg Prod.fst behind), behind]
  rfl

end Script

end BoundSql
