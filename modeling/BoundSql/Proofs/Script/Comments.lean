import BoundSql.Proofs.Script.Delimited
import BoundSql.Proofs.Script.DelimiterLine
import BoundSql.Proofs.Script.Shift

/-!
# Comments between statements

A line comment at the beginning of a script, behind the delimiter of a statement or behind a
`DELIMITER` line changes neither the statements nor the delimiter in force at last, as long as no
`DELIMITER` line stands right behind the comment: `Statement.readAll_comment`. Such a line is looked
for behind blanks alone, so the comment would hide it.
-/

namespace BoundSql

open Text Token Place

variable {s : ParseSettings} {delimiter text rest d : List Char} {sts : List Statement}

/-! ## Scripts that can be read as a whole -/

/-- All statements of the text can be read, and `last` is the delimiter in force behind them. -/
def Accepts (s : ParseSettings) (delimiter text : List Char) (sts : List Statement)
    (last : List Char) : Prop :=
  ((Script.ofText delimiter text).all s).1 = .ok sts ∧
    ((Script.ofText delimiter text).all s).2.delimiter = last

namespace Accepts

variable {last : List Char}

/-- Where a text stands does not matter. -/
theorem iff_at (pos : Position) : Accepts s delimiter text sts last ↔
    ((Script.mk delimiter ⟨text, pos⟩).all s).1 = .ok sts ∧
      ((Script.mk delimiter ⟨text, pos⟩).all s).2.delimiter = last := by
  have shifted : (Script.mk delimiter ⟨text, pos⟩).all s =
      (((Script.ofText delimiter text).all s).1.mapError (SqlError.shift pos),
        ((Script.ofText delimiter text).all s).2.shift pos) :=
    @Script.all_shift s (Script.ofText delimiter text) Position.counted_start pos
  rw [Accepts, shifted]
  cases ((Script.ofText delimiter text).all s).1 with
  | error e => constructor <;> rintro ⟨answer, -⟩ <;> cases answer
  | ok found => exact Iff.rfl

theorem iff_of_sameNext {delimiter' text' : List Char} {pos pos' : Position}
    (h : Script.SameNext s ⟨delimiter, ⟨text, pos⟩⟩ ⟨delimiter', ⟨text', pos'⟩⟩) :
    Accepts s delimiter text sts last ↔ Accepts s delimiter' text' sts last := by
  obtain ⟨answer, behind⟩ := Script.all_of_sameNext h
  rw [iff_at pos, iff_at pos', answer, behind]

end Accepts

/-- No `DELIMITER` line stands at the beginning of the text, or the dialect has none. -/
def Settled (dialect : Dialect) (text : List Char) : Prop :=
  dialect.delimiterCommand = true → ¬ DelimiterLine text

theorem Settled.settle (h : Settled s.dialect text) (delimiter : List Char) (pos : Position) :
    (Script.mk delimiter ⟨text, pos⟩).settle s.dialect = Script.mk delimiter ⟨text, pos⟩ := by
  by_cases command : s.dialect.delimiterCommand = true
  · refine Script.settle_of_none ?_ _
    rw [← Option.not_isSome_iff_eq_none, isSome_delimiterLine?]
    exact h command
  · rw [Script.settle, if_neg command]

namespace Accepts

variable {last : List Char}

/-- A comment in front of a script changes nothing, unless it hides a `DELIMITER` line. -/
theorem iff_comment (settled : Settled s.dialect text) {line : List Char} (single : '\n' ∉ line) :
    Accepts s delimiter (lineComment line ++ text) sts last ↔
      Accepts s delimiter text sts last := by
  have noLine : Settled s.dialect (lineComment line ++ text) := fun _ => not_delimiterLine_dash _
  have gap : Gap s.dialect.hashComments (lineComment line) text := gap_lineComment single _ _
  exact iff_of_sameNext
    (Script.next_front gap (noLine.settle delimiter .start) (settled.settle delimiter _))

/-- Reading goes on behind a `DELIMITER` line with its delimiter. -/
theorem iff_line (command : s.dialect.delimiterCommand = true) {blanks line mark : List Char}
    (blank : AllBlank blanks) (single : '\n' ∉ line) {n : Nat}
    (sets : delimiterLine? (line ++ ['\n']) = some (mark, n)) :
    Accepts s delimiter (blanks ++ (line ++ '\n' :: text)) sts last ↔
      Accepts s (if mark = [';'] then [] else mark) text sts last := by
  obtain ⟨found, length⟩ := delimiterLine?_append single sets text
  have positive := delimiterLine?_pos found
  have first : Accepts s delimiter (blanks ++ (line ++ '\n' :: text)) sts last ↔
      Accepts s delimiter (line ++ '\n' :: text) sts last :=
    iff_of_sameNext (Script.next_blanks blank delimiter _ .start)
  have skipped : Accepts s delimiter (line ++ '\n' :: text) sts last ↔
      Accepts s (if mark = [';'] then [] else mark) ((line ++ '\n' :: text).drop n) sts last := by
    have settled : (Script.mk delimiter ⟨line ++ '\n' :: text, .start⟩).settle s.dialect =
        (Script.mk (if mark = [';'] then [] else mark)
          ((Place.mk (line ++ '\n' :: text) .start).skip n)).settle s.dialect := by
      have whole : n - 1 + 1 = n := by omega
      unfold Script.settle
      rw [if_pos command, if_pos command,
        @skipDelimiterLines_of_some ⟨line ++ '\n' :: text, .start⟩ mark n found, whole]
    exact iff_of_sameNext (.of_eq (Script.next_congr settled))
  rw [first, skipped]
  rcases length with rfl | rfl
  · have behind : (line ++ '\n' :: text).drop (line.length + 1) = text := by
      rw [List.drop_length_add_append]
      rfl
    rw [behind]
  · -- A carriage return ends the line, and the line break behind it is a blank.
    have newline : AllBlank ['\n'] := by
      intro c hc
      rw [List.mem_singleton.1 hc]
      decide
    rw [List.drop_left]
    exact iff_of_sameNext (Script.next_blanks newline _ text .start)

/-- Behind an empty piece the script goes on. -/
theorem iff_empty (settled : Settled s.dialect text) {p : Piece}
    (found : (Script.ofText delimiter text).piece s = .ok p) (empty : p.tokens = [])
    (ended : p.terminator.kind = .punct .semicolon) :
    Accepts s delimiter text sts last ↔ Accepts s delimiter p.after.rest sts last := by
  have settle : (Script.ofText delimiter text).settle s.dialect = Script.ofText delimiter text :=
    settled.settle delimiter .start
  have notEof : p.terminator.kind ≠ .eof := by simp [ended]
  rw [← settle] at found
  have pieces := Script.nextPiece_of_empty found empty notEof
  rw [settle] at pieces
  have next : (Script.ofText delimiter text).next s =
      ((Script.ofText delimiter text).behind p).next s := by
    rw [Script.next, pieces]
    rfl
  exact iff_of_sameNext (.of_eq next)

/-- Behind a piece that holds a token the script goes on with the statement of the piece. -/
theorem iff_statement (settled : Settled s.dialect text) {p : Piece}
    (found : (Script.ofText delimiter text).piece s = .ok p) (full : p.tokens ≠ []) :
    Accepts s delimiter text sts last ↔ ∃ st tail, p.read s = .ok st ∧ sts = st :: tail ∧
      Accepts s delimiter p.after.rest tail last := by
  have settle : (Script.ofText delimiter text).settle s.dialect = Script.ofText delimiter text :=
    settled.settle delimiter .start
  rw [← settle] at found
  have next := Script.next_of_some (Script.nextPiece_of_tokens found full)
  rw [settle] at next
  cases read : p.read s with
  | error e =>
    rw [read] at next
    have failed := Script.all_of_error (congrArg Prod.fst next)
    constructor
    · intro accepts
      have answer := accepts.1
      rw [failed] at answer
      cases answer
    · rintro ⟨st, tail, outcome, -⟩
      cases outcome
  | ok st =>
    rw [read] at next
    have all := Script.all_of_some (congrArg Prod.fst next)
    rw [next] at all
    have behind : (Script.ofText delimiter text).behind p =
        Script.mk delimiter ⟨p.after.rest, p.after.pos⟩ := rfl
    dsimp only at all
    rw [behind] at all
    have later (tail : List Statement) := @iff_at s delimiter p.after.rest tail last p.after.pos
    simp only [later]
    unfold Accepts
    rw [all]
    cases ((Script.mk delimiter ⟨p.after.rest, p.after.pos⟩).all s).1 with
    | error e => simp [Except.map]
    | ok tail =>
      constructor
      · rintro ⟨answer, same⟩
        exact ⟨st, tail, rfl, (Except.ok.inj answer).symm, rfl, same⟩
      · rintro ⟨st', tail', outcome, rfl, answer, same⟩
        cases outcome
        cases answer
        exact ⟨rfl, same⟩

/-- Scripts that begin with the same piece give the same statements if they do so behind it. -/
theorem of_piece {text' : List Char} {p : Piece} {l : Lexer} (settled : Settled s.dialect text)
    (settled' : Settled s.dialect text') (found : (Script.ofText delimiter text).piece s = .ok p)
    (found' : (Script.ofText delimiter text').piece s = .ok { p with after := l })
    (ended : p.terminator.kind = .punct .semicolon)
    (behind : ∀ sts, Accepts s delimiter p.after.rest sts last → Accepts s delimiter l.rest sts last)
    (h : Accepts s delimiter text sts last) : Accepts s delimiter text' sts last := by
  by_cases empty : p.tokens = []
  · rw [iff_empty settled' found' empty ended]
    exact behind sts ((iff_empty settled found empty ended).1 h)
  · obtain ⟨st, tail, outcome, spelled, accepts⟩ := (iff_statement settled found empty).1 h
    rw [iff_statement settled' found' empty]
    exact ⟨st, tail, outcome, spelled, behind tail accepts⟩

end Accepts

/-- What stands behind the delimiter of a piece has no part in the piece, up to one character that
may become a dash. -/
theorem Script.piece_replace (firm : Firm delimiter) {p : Piece}
    (found : (Script.ofText delimiter text).piece s = .ok p)
    (ended : p.terminator.kind = .punct .semicolon) :
    ∃ read, text = read ++ (terminator delimiter ++ p.after.rest) ∧
      ∀ x, OrDash p.after.rest x →
        (Script.ofText delimiter (read ++ (terminator delimiter ++ x))).piece s =
          .ok { p with after := p.after.onto x } :=
  Lexer.piece_replace firm found ended

/-! ## Places between statements -/

/-- Reading the text with the delimiter comes to a place between statements: the beginning of the
script, the end of a `DELIMITER` line or the end of a statement's delimiter. There `rest` is left and
`d` is in force. -/
inductive Between (s : ParseSettings) :
    (delimiter text d rest : List Char) → Prop
  | here {delimiter text : List Char} : Between s delimiter text delimiter text
  | line {delimiter text d rest blanks line mark : List Char} {n : Nat} :
    s.dialect.delimiterCommand = true → AllBlank blanks → '\n' ∉ line →
    delimiterLine? (line ++ ['\n']) = some (mark, n) →
    Between s (if mark = [';'] then [] else mark) text d rest →
    Between s delimiter (blanks ++ (line ++ '\n' :: text)) d rest
  | piece {delimiter text d rest : List Char} {p : Piece} :
    Firm delimiter → Trimmed (terminator delimiter) → Settled s.dialect text →
    (Script.ofText delimiter text).piece s = .ok p → p.terminator.kind = .punct .semicolon →
    Between s delimiter p.after.rest d rest → Between s delimiter text d rest

namespace Between

/-- What stands behind such a place has no part in the statements in front of it: another text that
begins with a dash can take its place if it gives the same statements. -/
theorem replace (h : Between s delimiter text d rest) :
    ∃ front, text = front ++ rest ∧ Quiet front ∧ ∀ y,
      (∀ sts last, Accepts s d rest sts last → Accepts s d ('-' :: y) sts last) →
        ∀ sts last, Accepts s delimiter text sts last →
          Accepts s delimiter (front ++ '-' :: y) sts last := by
  induction h with
  | here => exact ⟨[], rfl, by simp [Quiet], fun y same => same⟩
  | @line delimiter text d rest blanks line mark n command blank single sets _ ih =>
    obtain ⟨front, rfl, quiet, replaced⟩ := ih
    refine ⟨blanks ++ (line ++ '\n' :: front), by simp, ?_, fun y same sts last accepts => ?_⟩
    · have split : blanks ++ (line ++ '\n' :: front) = blanks ++ line ++ ['\n'] ++ front := by simp
      rw [split]
      exact (quiet_newline _).append quiet
    · have behind := (Accepts.iff_line command blank single sets).1 accepts
      have replaced := replaced y same sts last behind
      have whole : blanks ++ (line ++ '\n' :: front) ++ '-' :: y =
          blanks ++ (line ++ '\n' :: (front ++ '-' :: y)) := by simp
      rw [whole]
      exact (Accepts.iff_line command blank single sets).2 replaced
  | @piece delimiter text d rest p firm trimmed settled found ended _ ih =>
    obtain ⟨front, behind, quiet, replaced⟩ := ih
    obtain ⟨read, whole, again⟩ := Script.piece_replace firm found ended
    have text' : text = read ++ terminator delimiter ++ front ++ rest := by
      rw [whole, behind]
      simp
    have quiet' : Quiet (read ++ terminator delimiter ++ front) :=
      (quiet_of_trimmed (trimmed.append_of_ne_nil (terminator_ne_nil _) read)).append quiet
    refine ⟨read ++ terminator delimiter ++ front, text', quiet', fun y same sts last accepts => ?_⟩
    have settled' : Settled s.dialect (read ++ terminator delimiter ++ front ++ '-' :: y) := by
      intro command line
      refine settled command ?_
      rw [text']
      exact line.replace_dash quiet' rest
    have orDash : OrDash p.after.rest (front ++ '-' :: y) := by
      rw [behind]
      cases front with
      | nil => exact .inr rfl
      | cons c front => exact .inl rfl
    have found' : (Script.ofText delimiter (read ++ terminator delimiter ++ front ++ '-' :: y)).piece
        s = .ok { p with after := p.after.onto (front ++ '-' :: y) } := by
      have again := again _ orDash
      rw [← List.append_assoc, ← List.append_assoc] at again
      exact again
    exact Accepts.of_piece settled settled' found found' ended
      (fun sts accepts => replaced y same sts last accepts) accepts

end Between

namespace Statement

theorem readAll_eq_ok_iff {last : List Char} :
    readAll s delimiter text = (.ok sts, last) ↔ sts ≠ [] ∧ Accepts s delimiter text sts last := by
  unfold readAll Accepts
  generalize (Script.ofText delimiter text).all s = all
  obtain ⟨found, behind⟩ := all
  cases found with
  | error e => simp
  | ok found =>
    cases found with
    | nil => simp +contextual [eq_comm]
    | cons st found =>
      constructor
      · intro h
        cases h
        exact ⟨List.cons_ne_nil st found, rfl, rfl⟩
      · rintro ⟨-, h, rfl⟩
        cases h
        rfl

/-- A line comment between statements changes neither the statements of a script nor the delimiter
in force at last, unless a `DELIMITER` line stands right behind it. -/
theorem readAll_comment {front line : List Char}
    (between : Between s delimiter (front ++ rest) d rest) (settled : Settled s.dialect rest)
    (single : '\n' ∉ line) (read : (readAll s delimiter (front ++ rest)).1 = .ok sts) :
    readAll s delimiter (front ++ (lineComment line ++ rest)) =
      readAll s delimiter (front ++ rest) := by
  obtain ⟨front', whole, -, replaced⟩ := between.replace
  obtain rfl : front = front' := List.append_cancel_right whole
  have answer : readAll s delimiter (front ++ rest) =
      (.ok sts, (readAll s delimiter (front ++ rest)).2) := Prod.ext read rfl
  obtain ⟨nonempty, accepts⟩ := readAll_eq_ok_iff.1 answer
  have comment : lineComment line ++ rest = '-' :: ('-' :: line ++ ['\n'] ++ rest) := rfl
  have behind : ∀ sts last, Accepts s d rest sts last →
      Accepts s d ('-' :: ('-' :: line ++ ['\n'] ++ rest)) sts last :=
    fun sts last accepts => comment ▸ (Accepts.iff_comment settled single).2 accepts
  have accepts' := replaced _ behind sts _ accepts
  rw [← comment] at accepts'
  exact (readAll_eq_ok_iff.2 ⟨nonempty, accepts'⟩).trans answer.symm

/-- In MySQL a comment behind `;DELIMITER $$` leaves the statement `x` and the delimiter `$$`. -/
theorem readAll_comment_line :
    let s : ParseSettings := { dialect := .mysql }
    let front : List Char := [';', 'D', 'E', 'L', 'I', 'M', 'I', 'T', 'E', 'R', ' ', '$', '$', '\n']
    Between s [] (front ++ ['x']) ['$', '$'] ['x'] ∧ Settled s.dialect ['x'] ∧
      readAll s [] (front ++ ['x']) = (.ok [⟨"x", .verbatim [.text "x"], ⟨[], []⟩⟩], ['$', '$']) ∧
      readAll s [] (front ++ (lineComment ['c'] ++ ['x'])) =
        (.ok [⟨"x", .verbatim [.text "x"], ⟨[], []⟩⟩], ['$', '$']) := by
  intro s front
  have plain : Settled s.dialect ['x'] := by
    intro _ line
    have found := isSome_delimiterLine?.2 line
    cases found
  have settled : Settled s.dialect (front ++ ['x']) := by
    intro _ line
    have found := isSome_delimiterLine?.2 line
    cases found
  have sets : delimiterLine? (['D', 'E', 'L', 'I', 'M', 'I', 'T', 'E', 'R', ' ', '$', '$'] ++ ['\n']) =
      some (['$', '$'], 13) := by decide
  have semicolon : (Script.ofText [] (front ++ ['x'])).piece s =
      .ok ⟨[], ⟨.punct .semicolon, [], [';'], ⟨0, 1, 1⟩⟩,
        ⟨{ dialect := .mysql }, front.tail ++ ['x'], ⟨1, 1, 2⟩, 0⟩⟩ :=
    Lexer.piece_of_true rfl
  have blank : AllBlank [] := by simp [AllBlank]
  have between : Between s [] (front ++ ['x']) ['$', '$'] ['x'] :=
    .piece (by decide) (notLast_concat (by decide) []) settled semicolon rfl
      (.line rfl blank (by decide) sets .here)
  have letter : Accepts s ['$', '$'] ['x'] [⟨"x", .verbatim [.text "x"], ⟨[], []⟩⟩] ['$', '$'] := by
    unfold Accepts
    rw [Script.all_letter (by decide) (by decide)]
    exact ⟨rfl, rfl⟩
  have behind : Accepts s [] (front.tail ++ ['x']) [⟨"x", .verbatim [.text "x"], ⟨[], []⟩⟩] ['$', '$'] :=
    (Accepts.iff_line rfl blank (by decide) sets).2 letter
  have whole : readAll s [] (front ++ ['x']) =
      (.ok [⟨"x", .verbatim [.text "x"], ⟨[], []⟩⟩], ['$', '$']) :=
    readAll_eq_ok_iff.2 ⟨by simp, (Accepts.iff_empty settled semicolon rfl rfl).2 behind⟩
  refine ⟨between, plain, whole, ?_⟩
  rw [readAll_comment between plain (by decide) (congrArg Prod.fst whole), whole]

end Statement

end BoundSql
