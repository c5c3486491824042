import BoundSql.Proofs.Script.Blanks
import BoundSql.Proofs.Script.Shift

/-!
# A script read statement by statement

A script can be read as a whole, or its first statement can be read and then the text behind it, and
so on. `Statement.readAll_eq_readLoop` says that the two ways give the same statements and end
alike: errors differ only in that the second way counts places from the text that is left.
-/

namespace BoundSql

open Text Token

/-! ## What is left of a script -/

/-- The place `q` is behind some text of the place `p`. -/
def Place.Reaches (p q : Place) : Prop := ∃ read, p.rest = read ++ q.rest ∧ q.pos = p.pos.after read

namespace Place

variable {p q r : Place}

theorem Reaches.refl (p : Place) : p.Reaches p := ⟨[], rfl, rfl⟩

theorem Reaches.trans (h : p.Reaches q) (h' : q.Reaches r) : p.Reaches r := by
  obtain ⟨read, rest, pos⟩ := h
  obtain ⟨more, rest', pos'⟩ := h'
  refine ⟨read ++ more, ?_, ?_⟩
  · rw [rest, rest', List.append_assoc]
  · rw [pos', pos, Position.after_append]

theorem reaches_skip (p : Place) (n : Nat) : p.Reaches (p.skip n) :=
  ⟨p.rest.take n, (List.take_append_drop n p.rest).symm, rfl⟩

theorem reaches_skipDelimiterLines (delimiter : List Char) (p : Place) :
    p.Reaches (p.skipDelimiterLines delimiter).2 := by
  fun_induction skipDelimiterLines delimiter p with
  | case1 delimiter pos => exact .refl _
  | case2 delimiter c cs pos noLine => exact .refl _
  | case3 delimiter c cs pos d n line ih => exact (reaches_skip _ _).trans ih

end Place

/-- The place of a lexer. -/
def Lexer.place (l : Lexer) : Place := ⟨l.rest, l.pos⟩

theorem Lexer.reaches_next (l : Lexer) : l.place.Reaches l.next.2.place :=
  ⟨l.next.1.source, l.source_next_append.symm, l.pos_after_next⟩

theorem Lexer.reaches_piece {l : Lexer} {limit : Nat} {blocks : BlockState} {start : Option Nat}
    {p : Piece} (found : l.piece limit blocks start = .ok p) : l.place.Reaches p.after.place := by
  induction hn : l.rest.length using Nat.strongRecOn generalizing l blocks start p with
  | ind n ih =>
    rcases piece_cases found with ⟨-, rfl⟩ | ⟨inner, q, rest, rfl⟩
    · exact l.reaches_next
    · have behind := ih _ (hn ▸ length_rest_next_lt (next_inner inner).1) rest rfl
      exact l.reaches_next.trans behind

namespace Script

variable {s : ParseSettings} {script : Script}

theorem reaches_settle (d : Dialect) (script : Script) :
    script.place.Reaches (script.settle d).place := by
  unfold settle
  split
  · exact Place.reaches_skipDelimiterLines _ _
  · exact .refl _

theorem reaches_nextPiece (s : ParseSettings) (script : Script) :
    script.place.Reaches (script.nextPiece s).2.place := by
  fun_induction nextPiece s script with
  | case1 script e failed => exact reaches_settle _ _
  | case2 script p found empty ih =>
    exact ((reaches_settle _ _).trans (Lexer.reaches_piece found)).trans ih
  | case3 script p found full => exact (reaches_settle _ _).trans (Lexer.reaches_piece found)

/-- Reading a statement moves on over some text. -/
theorem reaches_next (s : ParseSettings) (script : Script) :
    script.place.Reaches (script.next s).2.place := by
  have reached := reaches_nextPiece s script
  unfold next
  dsimp only
  split <;> exact reached

/-- The statements that can be read one after the other before the script ends or fails. -/
def leading (s : ParseSettings) (script : Script) : List Statement :=
  match _h : (script.next s).1 with
  | .ok (some st) => st :: (script.next s).2.leading s
  | _ => []
termination_by script.place.rest.length
decreasing_by exact length_next_lt _h

theorem leading_of_some {st : Statement} (h : (script.next s).1 = .ok (some st)) :
    script.leading s = st :: (script.next s).2.leading s := by
  rw [leading]
  split
  · rename_i found
    cases found.symm.trans h
    rfl
  · rename_i other
    exact absurd h (other st)

theorem leading_of_ne_some (h : ∀ st, (script.next s).1 ≠ .ok (some st)) :
    script.leading s = [] := by
  rw [leading]
  split
  · rename_i found
    exact absurd found (h _)
  · rfl

/-- A script that can be read as a whole is its leading statements. -/
theorem leading_of_all {sts : List Statement} (h : (script.all s).1 = .ok sts) :
    script.leading s = sts := by
  fun_induction all s script generalizing sts with
  | case1 script e failed => cases h
  | case2 script none =>
    cases h
    exact leading_of_ne_some fun st found => by cases none.symm.trans found
  | case3 script st found rest script' outcome ih =>
    rw [leading_of_some found]
    cases tail : rest with
    | error e =>
      rw [tail] at h
      cases h
    | ok sts' =>
      rw [tail] at h
      cases h
      rw [ih (by rw [outcome]; exact tail)]

end Script

/-! ## Statement by statement -/

/-- How far a text can be read statement by statement. -/
structure Reading where
  statements : List Statement
  /-- The text that is left behind the last statement. -/
  rest : List Char
  /-- Why no statement is read from that text. -/
  error : SqlError
  /-- The delimiter in force at last. -/
  delimiter : List Char

namespace Statement

variable {s : ParseSettings} {delimiter text rest : List Char} {st : Statement}

theorem readFirst_of_error {e : SqlError} (h : ((Script.ofText delimiter text).next s).1 = .error e) :
    readFirst s delimiter text = (.error e, ((Script.ofText delimiter text).next s).2.delimiter) := by
  unfold readFirst
  generalize (Script.ofText delimiter text).next s = next at h
  obtain ⟨found, behind⟩ := next
  cases h
  rfl

theorem readFirst_of_none (h : ((Script.ofText delimiter text).next s).1 = .ok none) :
    readFirst s delimiter text =
      (.error .noStatement, ((Script.ofText delimiter text).next s).2.delimiter) := by
  unfold readFirst
  generalize (Script.ofText delimiter text).next s = next at h
  obtain ⟨found, behind⟩ := next
  cases h
  rfl

theorem readFirst_of_some (h : ((Script.ofText delimiter text).next s).1 = .ok (some st)) :
    readFirst s delimiter text =
      (.ok (st, trimStart ((Script.ofText delimiter text).next s).2.place.rest),
        ((Script.ofText delimiter text).next s).2.delimiter) := by
  unfold readFirst
  generalize (Script.ofText delimiter text).next s = next at h
  obtain ⟨found, behind⟩ := next
  cases h
  rfl

/-- Behind its first statement a text is shorter, and the end of the text. -/
theorem readFirst_rest (h : (readFirst s delimiter text).1 = .ok (st, rest)) :
    rest <:+ text ∧ rest.length < text.length := by
  cases found : ((Script.ofText delimiter text).next s).1 with
  | error e =>
    rw [readFirst_of_error found] at h
    cases h
  | ok answer =>
    cases answer with
    | none =>
      rw [readFirst_of_none found] at h
      cases h
    | some st' =>
      rw [readFirst_of_some found] at h
      cases h
      have trimmed := List.dropWhile_suffix isBlank
        (l := ((Script.ofText delimiter text).next s).2.place.rest)
      have behind := Script.reaches_next s (Script.ofText delimiter text)
      obtain ⟨read, whole, -⟩ := behind
      have shorter := Script.length_next_lt found
      refine ⟨trimmed.trans ⟨read, whole.symm⟩, Nat.lt_of_le_of_lt trimmed.length_le shorter⟩

/-- Reads the first statement, then the first statement of the text behind it, and so on. -/
def readLoop (s : ParseSettings) (delimiter text : List Char) : Reading :=
  match _h : (readFirst s delimiter text).1 with
  | .error e => ⟨[], text, e, (readFirst s delimiter text).2⟩
  | .ok (st, rest) =>
    let reading := readLoop s (readFirst s delimiter text).2 rest
    { reading with statements := st :: reading.statements }
termination_by text.length
decreasing_by exact (readFirst_rest _h).2

theorem readLoop_of_error {e : SqlError} (h : (readFirst s delimiter text).1 = .error e) :
    readLoop s delimiter text = ⟨[], text, e, (readFirst s delimiter text).2⟩ := by
  rw [readLoop]
  split
  · rename_i failed
    cases failed.symm.trans h
    rfl
  · rename_i found
    cases found.symm.trans h

theorem readLoop_of_ok (h : (readFirst s delimiter text).1 = .ok (st, rest)) :
    readLoop s delimiter text =
      { readLoop s (readFirst s delimiter text).2 rest with
        statements := st :: (readLoop s (readFirst s delimiter text).2 rest).statements } := by
  rw [readLoop]
  split
  · rename_i failed
    cases failed.symm.trans h
  · rename_i found
    cases found.symm.trans h
    rfl

/-- The next statement of what is left of a script is the first statement of the text that is left,
the blanks in front aside. -/
theorem next_left {blanks : List Char} (h : AllBlank blanks) (s : ParseSettings)
    (delimiter text : List Char) (pos : Position) :
    ((Script.mk delimiter ⟨blanks ++ text, pos⟩).next s).1 =
        ((Script.ofText delimiter text).next s).1.mapError (SqlError.shift (pos.after blanks)) ∧
      ((Script.mk delimiter ⟨blanks ++ text, pos⟩).next s).2.delimiter =
        ((Script.ofText delimiter text).next s).2.delimiter ∧
      ∀ found, ((Script.ofText delimiter text).next s).1 = .ok found →
        ((Script.mk delimiter ⟨blanks ++ text, pos⟩).next s).2 =
          ((Script.ofText delimiter text).next s).2.shift (pos.after blanks) := by
  have shifted : (Script.mk delimiter ⟨text, pos.after blanks⟩).next s =
      (((Script.ofText delimiter text).next s).1.mapError (SqlError.shift (pos.after blanks)),
        ((Script.ofText delimiter text).next s).2.shift (pos.after blanks)) :=
    (@Script.next_shift s (Script.ofText delimiter text) Position.counted_start _).1
  obtain ⟨answer, delimiters, behind⟩ := Script.next_blanks (s := s) h delimiter text pos
  rw [shifted] at answer delimiters behind
  refine ⟨answer, delimiters, fun found outcome => behind found ?_⟩
  rw [outcome]
  rfl

/-- Reading what is left of a script as a whole and reading the text that is left, without the blanks
in front, statement by statement: both give the same statements, stop in the same way and leave the
same delimiter in force. -/
theorem readLoop_left (s : ParseSettings) (delimiter : List Char) {blanks : List Char}
    (h : AllBlank blanks) (text : List Char) {pos : Position} (read : List Char)
    (place : pos = Position.start.after read) :
    ((Script.mk delimiter ⟨blanks ++ text, pos⟩).all s).2.delimiter =
        (readLoop s delimiter text).delimiter ∧
      (Script.mk delimiter ⟨blanks ++ text, pos⟩).leading s =
        (readLoop s delimiter text).statements ∧
      ∃ consumed, text = consumed ++ (readLoop s delimiter text).rest ∧
        match ((Script.mk delimiter ⟨blanks ++ text, pos⟩).all s).1 with
        | .ok _ => (readLoop s delimiter text).error = .noStatement
        | .error e => e = (readLoop s delimiter text).error.shift
            (Position.start.after (read ++ blanks ++ consumed)) := by
  induction hn : text.length using Nat.strongRecOn generalizing text blanks pos read delimiter with
  | ind n ih =>
    have base : Position.start.after (read ++ blanks) = pos.after blanks := by
      rw [place, Position.after_append]
    obtain ⟨answer, delimiters, behind⟩ := next_left h s delimiter text pos
    cases found : ((Script.ofText delimiter text).next s).1 with
    | error e =>
      rw [found] at answer
      have first := readFirst_of_error found
      have loop : readLoop s delimiter text = _ := readLoop_of_error (congrArg Prod.fst first)
      rw [Script.all_of_error answer, loop, first]
      refine ⟨delimiters, Script.leading_of_ne_some fun st other => ?_, [], rfl, ?_⟩
      · cases other.symm.trans answer
      · rw [List.append_nil, base]
    | ok outcome =>
      have behind := behind outcome found
      rw [found] at answer
      cases outcome with
      | none =>
        have first := readFirst_of_none found
        have loop : readLoop s delimiter text = _ := readLoop_of_error (congrArg Prod.fst first)
        rw [Script.all_of_none answer, loop, first]
        refine ⟨delimiters, Script.leading_of_ne_some fun st other => ?_, [], rfl, rfl⟩
        cases other.symm.trans answer
      | some st =>
        have first := readFirst_of_some found
        have loop : readLoop s delimiter text = _ := readLoop_of_ok (congrArg Prod.fst first)
        have shorter := (readFirst_rest (congrArg Prod.fst first)).2
        obtain ⟨part, whole, reached⟩ := Script.reaches_next s (Script.ofText delimiter text)
        rw [Script.all_of_some answer, Script.leading_of_some answer, behind, loop, first]
        generalize ((Script.ofText delimiter text).next s).2 = rest at whole reached shorter
        have blank : AllBlank (rest.place.rest.takeWhile isBlank) := List.all_eq_true.1 List.all_takeWhile
        have further : (pos.after blanks).shift rest.place.pos =
            Position.start.after (read ++ blanks ++ part) := by
          rw [reached, Position.after_append, base]
          exact Position.counted_start.shift_after _ _
        have tail := ih _ (hn ▸ shorter) rest.delimiter blank (trimStart rest.place.rest)
          (read ++ blanks ++ part) further rfl
        have joined : rest.place.rest.takeWhile isBlank ++ trimStart rest.place.rest =
            rest.place.rest := List.takeWhile_append_dropWhile
        rw [joined] at tail
        obtain ⟨delimiters, statements, consumed, left, ending⟩ := tail
        refine ⟨delimiters, congrArg (st :: ·) statements,
          part ++ rest.place.rest.takeWhile isBlank ++ consumed, ?_, ?_⟩
        · have text' : text = part ++ rest.place.rest := whole
          rw [List.append_assoc, List.append_assoc, ← left, joined]
          exact text'
        · have script : Script.mk rest.delimiter
              ⟨rest.place.rest, (pos.after blanks).shift rest.place.pos⟩ =
                rest.shift (pos.after blanks) := rfl
          rw [script] at ending
          generalize ((rest.shift (pos.after blanks)).all s).1 = all at ending
          cases all with
          | ok sts => exact ending
          | error e => simpa only [Except.map, List.append_assoc] using ending

/-- Reading a script as a whole and reading it statement by statement come to the same. What is left
behind each statement is a shorter end of the text, so the latter ends. If the script can be read as
a whole, the same statements come one by one, and no other. If not, the same statements come before
the same error, whose place is counted from the text that is left. The delimiter in force at last is
the same. -/
theorem readAll_eq_readLoop (s : ParseSettings) (delimiter text : List Char) :
    (∀ d t st rest, (readFirst s d t).1 = .ok (st, rest) → rest <:+ t ∧ rest.length < t.length) ∧
      (readAll s delimiter text).2 = (readLoop s delimiter text).delimiter ∧
      match (readAll s delimiter text).1 with
      | .ok sts =>
        (readLoop s delimiter text).statements = sts ∧
          (readLoop s delimiter text).error = .noStatement
      | .error e =>
        (readLoop s delimiter text).statements = (Script.ofText delimiter text).leading s ∧
          ∃ consumed, text = consumed ++ (readLoop s delimiter text).rest ∧
            e = (readLoop s delimiter text).error.shift (Position.start.after consumed) := by
  refine ⟨fun d t st rest h => readFirst_rest h, ?_⟩
  have blank : AllBlank [] := fun c member => by cases member
  obtain ⟨delimiters, statements, consumed, left, ending⟩ :=
    @readLoop_left s delimiter [] blank text .start [] rfl
  have script : Script.mk delimiter ⟨[] ++ text, .start⟩ = Script.ofText delimiter text := rfl
  rw [script] at delimiters statements ending
  have leading := @Script.leading_of_all s (Script.ofText delimiter text)
  unfold readAll
  generalize (Script.ofText delimiter text).all s = all at delimiters ending leading
  obtain ⟨found, behind⟩ := all
  refine ⟨?_, ?_⟩
  · exact delimiters
  · cases found with
    | error e => exact ⟨statements.symm, consumed, left, ending⟩
    | ok sts =>
      have whole : (Script.ofText delimiter text).leading s = sts := leading rfl
      rw [whole] at statements
      cases sts with
      | nil =>
        refine ⟨by rw [← statements, whole], consumed, left, ?_⟩
        rw [ending]
        rfl
      | cons st sts => exact ⟨statements.symm, ending⟩

end Statement

end BoundSql
