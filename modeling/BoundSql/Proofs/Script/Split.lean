import BoundSql.CommandLine.Run
import BoundSql.Proofs.Script.Comments
import BoundSql.Proofs.Script.Placeholders
import BoundSql.Proofs.Script.Stored
import BoundSql.Proofs.Token.Block

/-!
# A script printed statement by statement

`CommandLine.splitText` prints the statements of a script, each with its text and a semicolon. Where
no command sets another delimiter, the printed script consists of the same statements, unless a text
hides its semicolon, in a line comment or in a block that is open at its end:
`Statement.readAll_splitText`.
-/

namespace BoundSql

open Text Token

/-! ## A semicolon behind a piece -/

/-- A semicolon ends the statement where the end of the input leaves no block open. -/
theorem BlockState.step_of_closed {d : Dialect} {s : BlockState} {t eof : Token}
    (closed : (s.after d [eof]).level = 0) (ended : eof.kind = .eof)
    (semicolon : t.kind = .punct .semicolon) : (s.step d t).2 = t := by
  have level : (s.settle (.punct .semicolon)).level = 0 := by
    simpa [after, step, enter, finish, ended, settle] using closed
  have kind : ((s.settle t.kind).enter d t.kind).2 = t.kind := by
    rw [semicolon, enter, if_neg (by omega)]
  simp only [step, kind]

namespace Lexer

variable {l : Lexer} {limit : Nat} {blocks : BlockState} {start : Option Nat} {p : Piece}

theorem rest_of_eof (h : l.next.1.kind = .eof) : l.rest = l.gap := by
  cases ahead : l.ahead with
  | nil => rw [← l.gap_append_ahead, ahead, List.append_nil]
  | cons c cs =>
    rw [next_of_ahead_cons ahead] at h
    exact absurd h (scan_ne_eof _ _ _ _)

/-- A semicolon behind a gap, the end of the input left aside. -/
theorem next_append_semicolon (hlx : l.lexicon.delimiter = []) (eof : l.next.1.kind = .eof)
    (line : Gap l.lexicon.dialect.hashComments l.gap [';']) (x : List Char) :
    (l.onto (l.rest ++ ';' :: x)).next.1.kind = .punct .semicolon ∧
      (l.onto (l.rest ++ ';' :: x)).next.1.gap = l.gap ∧
        (l.onto (l.rest ++ ';' :: x)).next.2.rest = x := by
  have gap : Gap l.lexicon.dialect.hashComments l.gap (';' :: x) := line.replace rfl
  have next := next_gap gap l.pos l.ordinal
  have solid : (Lexer.mk l.lexicon (';' :: x) (l.pos.after l.gap) l.ordinal).ahead = ';' :: x :=
    Lexicon.ahead_cons (by decide) fun more => by simp [commentLead]
  have empty : (Lexer.mk l.lexicon (';' :: x) (l.pos.after l.gap) l.ordinal).gap = [] := by
    have whole := (Lexer.mk l.lexicon (';' :: x) (l.pos.after l.gap) l.ordinal).gap_append_ahead
    rw [solid] at whole
    exact List.append_left_eq_self.1 whole
  rw [next_of_ahead_cons solid, scan_of_semicolon hlx] at next
  have same : l.onto (l.rest ++ ';' :: x) = Lexer.mk l.lexicon (l.gap ++ ';' :: x) l.pos l.ordinal := by
    rw [rest_of_eof eof]
    rfl
  rw [same, next]
  refine ⟨rfl, ?_, rfl⟩
  simp [Token.indent, cut, empty]

/-- A piece at the end of a script, in which neither a line comment nor a block is open at last, is
the same piece in front of a semicolon. -/
theorem piece_append_semicolon (hlx : l.lexicon.delimiter = [])
    (h : l.piece limit blocks start = .ok p) (eof : p.terminator.kind = .eof)
    (line : Gap l.lexicon.dialect.hashComments p.terminator.gap [';'])
    (block : (blocks.after l.lexicon.dialect l.tokens).level = 0) (x : List Char) :
    ∃ t after, (l.onto (l.rest ++ ';' :: x)).piece limit blocks start = .ok ⟨p.tokens, t, after⟩ ∧
      t.gap = p.terminator.gap ∧ after.rest = x := by
  induction hn : l.rest.length using Nat.strongRecOn generalizing l blocks start p with
  | ind n ih =>
    rcases piece_cases h with ⟨ends, rfl⟩ | ⟨inner, q, rest, rfl⟩
    · have last : l.next.1.kind = .eof := by
        rcases blocks.kind_step l.lexicon.dialect l.next.1 with kept | ⟨-, changed⟩
        · exact kept.symm.trans eof
        · cases changed.symm.trans eof
      obtain ⟨kind, gap, left⟩ := next_append_semicolon hlx last (l.gap_next ▸ line) x
      rw [tokens_of_eof last] at block
      have stays : ((l.onto (l.rest ++ ';' :: x)).nextIn blocks).2 =
          (l.onto (l.rest ++ ';' :: x)).next.1 := BlockState.step_of_closed block last kind
      refine ⟨_, _, piece_of_true ?_, ?_, left⟩
      · rw [atEnd, stays, endsPiece, kind]
      · rw [stays, gap]
        exact l.gap_next.symm
    · obtain ⟨kind, sound⟩ := next_inner inner
      have text : l.next.1.source ++ l.next.2.rest = l.rest := l.source_next_append
      have behind : (l.onto (l.rest ++ ';' :: x)).next =
          (l.next.1, l.next.2.onto (l.next.2.rest ++ ';' :: x)) := by
        have stop : Ends (';' :: x) := ends_cons (by decide) x
        have fits : l.next.1.source.length ≤ l.rest.length := by
          rw [← text, List.length_append]
          exact Nat.le_add_right _ _
        obtain ⟨-, next⟩ := next_onto hlx ends_nil.breaks stop (List.append_nil _).symm sound kind fits
        rw [next]
        nth_rewrite 1 [← text]
        rw [List.drop_left]
      have same : (l.onto (l.rest ++ ';' :: x)).nextIn blocks = l.nextIn blocks := by
        rw [nextIn, behind]
        rfl
      rw [tokens_of_ne_eof kind] at block
      obtain ⟨t, after, found, gap, left⟩ := ih _ (hn ▸ length_rest_next_lt kind)
        (by rw [lexicon_next, hlx]) rest eof (by rwa [lexicon_next]) (by rwa [lexicon_next]) rfl
      refine ⟨t, after, ?_, gap, left⟩
      rw [piece_of_false (by rw [atEnd, same]; exact inner), same, behind, found]
      rfl

end Lexer

/-- What is read of a piece depends on its tokens and the gap in front of its terminator. -/
theorem Piece.read_congr {p q : Piece} (tokens : p.tokens = q.tokens) (full : q.tokens ≠ [])
    (gap : p.terminator.gap = q.terminator.gap) (s : ParseSettings) : p.read s = q.read s := by
  have lead : p.lead = q.lead := by
    obtain ⟨first, rest, spelled⟩ := List.exists_cons_of_ne_nil full
    rw [lead_of_tokens (tokens.trans spelled), lead_of_tokens spelled]
  have text : p.text = q.text := by rw [Piece.text, Piece.text, tokens, gap]
  unfold Piece.read Piece.body decompose innerTokens
  rw [lead, text]

theorem BlockState.after_shift {d : Dialect} (s : BlockState) (base : Position) (ts : List Token) :
    s.after d (ts.map (Token.shift base)) = s.after d ts := by
  rw [after, List.foldl_map]
  rfl

namespace Statement

/-- The text of the statement ends neither in a line comment nor in an open block. -/
structure Closed (d : Dialect) (st : Statement) : Prop where
  line : ∀ t ∈ st.tokens d, t.kind = .eof → Gap d.hashComments t.gap [';']
  block : (BlockState.start.after d (st.tokens d)).level = 0

variable {s : ParseSettings} {text : List Char} {st : Statement} {sts : List Statement}

/-- Behind its text and a semicolon a statement is read again, and what follows is left. -/
theorem Parsed.next_semicolon (command : s.dialect.delimiterCommand = false)
    (parsed : st.Parsed s [] text) (closed : st.Closed s.dialect) (x : List Char) : ∃ pos pos',
      (Script.mk [] ⟨st.sql.toList ++ ';' :: x, pos⟩).next s = (.ok (some st), ⟨[], ⟨x, pos'⟩⟩) := by
  obtain ⟨script, p, taken, full, read, same⟩ := parsed.exists_piece
  obtain ⟨q, whole, full, eof, -, again⟩ := Script.piece_trimEnd (same command) taken full read
  have sql : st.sql.toList = trimEnd p.text := by
    rw [(Piece.read_eq_ok_iff.1 read).2.2.2.1, String.toList_ofList]
  rw [← sql] at whole
  have tokens : (Lexer.ofText { dialect := s.dialect } st.sql.toList p.lead.pos).tokens =
      (st.tokens s.dialect).map (Token.shift p.lead.pos) :=
    @Lexer.tokens_shift (Lexer.ofText { dialect := s.dialect } st.sql.toList) Position.counted_start _
  have line : Gap s.dialect.hashComments q.terminator.gap [';'] := by
    obtain ⟨⟨more, spelled⟩, -⟩ := Lexer.piece_tokens rfl whole
    have member : q.terminator ∈ (st.tokens s.dialect).map (Token.shift p.lead.pos) := by
      rw [← tokens, spelled]
      simp
    obtain ⟨t, ht, moved⟩ := List.mem_map.1 member
    rw [← moved] at eof ⊢
    exact closed.line t ht eof
  have block : (BlockState.start.after s.dialect
      (Lexer.ofText { dialect := s.dialect } st.sql.toList p.lead.pos).tokens).level = 0 := by
    rw [tokens, BlockState.after_shift]
    exact closed.block
  obtain ⟨t, after, found, gap, left⟩ := Lexer.piece_append_semicolon rfl whole eof line block x
  have here := Script.settle_of_no_command command
    (Script.mk [] ⟨st.sql.toList ++ ';' :: x, p.lead.pos⟩)
  have piece : ((Script.mk [] ⟨st.sql.toList ++ ';' :: x, p.lead.pos⟩).settle s.dialect).piece s =
      .ok ⟨q.tokens, t, after⟩ := by
    rw [here]
    exact found
  have statement : Piece.read s ⟨q.tokens, t, after⟩ = .ok st :=
    (@Piece.read_congr ⟨q.tokens, t, after⟩ q rfl full gap s).trans again
  have next := Script.next_of_some (Script.nextPiece_of_tokens piece full)
  rw [here, statement] at next
  refine ⟨p.lead.pos, after.pos, next.trans ?_⟩
  rw [← left]
  rfl

end Statement

/-! ## The printed script -/

/-- Where the next statement is read, the statements behind it follow. -/
theorem Accepts.of_next {s : ParseSettings} {delimiter text delimiter' rest last : List Char}
    {pos pos' : Position} {st : Statement} {sts : List Statement}
    (next : (Script.mk delimiter ⟨text, pos⟩).next s =
      (.ok (some st), ⟨delimiter', ⟨rest, pos'⟩⟩)) (behind : Accepts s delimiter' rest sts last) :
    Accepts s delimiter text (st :: sts) last := by
  obtain ⟨statements, same⟩ := (Accepts.iff_at pos').1 behind
  rw [Accepts.iff_at pos, Script.all_of_some (congrArg Prod.fst next), next, statements]
  exact ⟨rfl, same⟩

/-- The name of a type of statement stands on one line. -/
theorem Body.newline_notMem_typeName (b : Body) : '\n' ∉ b.typeName.toList := by
  cases b with
  | transaction t =>
    rw [typeName]
    cases t.kind <;> decide
  | _ =>
    rw [typeName]
    decide

namespace CommandLine

@[simp] theorem splitText_nil : splitText [] = "" := rfl

/-- A statement is printed behind a comment and in front of a semicolon. -/
theorem toList_splitText_cons (st : Statement) (sts : List Statement) :
    (splitText (st :: sts)).toList = lineComment (' ' :: st.body.typeName.toList) ++
      (st.sql.toList ++ ';' :: (['\n'] ++ (splitText sts).toList)) := by
  simp [splitText, lines, lineComment]

end CommandLine

open CommandLine in
/-- Printed with a semicolon behind each statement and a comment in front of it, a script consists of
the same statements, unless the text of one ends in a line comment or in an open block. -/
theorem Statement.readAll_splitText {s : ParseSettings} {text : List Char} {sts : List Statement}
    (command : s.dialect.delimiterCommand = false) (read : (readAll s [] text).1 = .ok sts)
    (closed : ∀ st ∈ sts, st.Closed s.dialect) :
    readAll s [] (splitText sts).toList = (.ok sts, []) := by
  have nonempty : sts ≠ [] := (readAll_eq_ok_iff.1 (Prod.ext read rfl)).1
  have parsed : ∀ st ∈ sts, st.Parsed s [] text := fun st member => .inr ⟨sts, read, member⟩
  refine readAll_eq_ok_iff.2 ⟨nonempty, ?_⟩
  clear nonempty read
  have settled (cs : List Char) : Settled s.dialect cs := fun set => by simp [set] at command
  induction sts with
  | nil =>
    have piece : ((Script.ofText [] []).settle s.dialect).piece s =
        .ok ⟨[], ⟨.eof, [], [], .start⟩, .ofText { dialect := s.dialect } []⟩ := by
      rw [Script.settle_of_no_command command]
      exact Lexer.piece_of_true rfl
    have nothing := Script.next_of_none (Script.nextPiece_of_eof piece rfl rfl)
    have none := Script.all_of_none (congrArg Prod.fst nothing)
    rw [nothing, Script.settle_of_no_command command] at none
    exact ⟨congrArg Prod.fst none, congrArg (fun r => r.2.delimiter) none⟩
  | cons st sts ih =>
    obtain ⟨pos, pos', next⟩ := (parsed st List.mem_cons_self).next_semicolon command
      (closed st List.mem_cons_self) (['\n'] ++ (splitText sts).toList)
    have tail := ih (fun st' member => closed st' (List.mem_cons_of_mem st member))
      (fun st' member => parsed st' (List.mem_cons_of_mem st member))
    have newline : AllBlank ['\n'] := List.forall_mem_singleton.2 (by decide)
    have behind : Accepts s [] (['\n'] ++ (splitText sts).toList) sts [] :=
      (Accepts.iff_of_sameNext (Script.next_blanks newline [] _ .start)).2 tail
    have single : '\n' ∉ ' ' :: st.body.typeName.toList := by
      simpa using st.body.newline_notMem_typeName
    rw [toList_splitText_cons, Accepts.iff_comment (settled _) single]
    exact .of_next next behind

/-- The script `x` is printed as one statement of unknown type, and read back. -/
theorem Statement.readAll_splitText_letter :
    (readAll {} [] ['x']).1 = .ok [⟨"x", .verbatim [.text "x"], ⟨[], []⟩⟩] ∧
      (Statement.mk "x" (.verbatim [.text "x"]) ⟨[], []⟩).Closed .standard ∧
      readAll {} [] "-- UNKNOWN\nx;\n".toList =
        (.ok [⟨"x", .verbatim [.text "x"], ⟨[], []⟩⟩], []) := by
  have read : (readAll {} [] ['x']).1 = .ok [⟨"x", .verbatim [.text "x"], ⟨[], []⟩⟩] := by
    rw [readAll, Script.all_letter (by decide) (by decide)]
  have tokens : (Statement.mk "x" (.verbatim [.text "x"]) ⟨[], []⟩).tokens .standard =
      [⟨.identifier "x", [], ['x'], .start⟩, ⟨.eof, [], [], ⟨1, 1, 2⟩⟩] :=
    Script.tokens_letter (by decide)
  have closed : (Statement.mk "x" (.verbatim [.text "x"]) ⟨[], []⟩).Closed .standard := by
    refine ⟨fun t ht kind => ?_, ?_⟩
    · rw [tokens] at ht
      rcases List.mem_cons.1 ht with rfl | ht
      · cases kind
      · rw [List.mem_singleton.1 ht]
        exact .nil
    · rw [tokens]
      rfl
  have text : (CommandLine.splitText [⟨"x", .verbatim [.text "x"], ⟨[], []⟩⟩]).toList =
      "-- UNKNOWN\nx;\n".toList := by decide +kernel
  refine ⟨read, closed, ?_⟩
  rw [← text]
  exact readAll_splitText rfl read (List.forall_mem_singleton.2 closed)

end BoundSql
