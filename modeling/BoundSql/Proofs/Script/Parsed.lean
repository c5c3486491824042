import BoundSql.Proofs.Script.Loop
import Mathlib.Tactic.Tauto

/-!
# The statements of a text

A statement that is read from a text, by itself or with the others of the text, is what `Piece.read`
makes of a piece of the text that holds a token: `Parsed.exists_piece`.
-/

namespace BoundSql

open Text Token

-- Pieces can be compared, so that those of a given text can be found by evaluation.
deriving instance DecidableEq for Token.Lexicon, Lexer, Piece

namespace Piece

variable {s : ParseSettings} {p : Piece} {st : Statement}

/-- What a piece has to be for a statement to be read from it. -/
theorem read_eq_ok_iff : p.read s = .ok st ↔ p.body s = .ok st.body ∧ st.body.check = .ok () ∧
    (s.strictTypes → st.params.conflicts = []) ∧ st.sql = String.ofList (trimEnd p.text) ∧
      st.params = ParamTable.ofTokens (p.innerTokens s.dialect) := by
  obtain ⟨sql, body, params⟩ := st
  unfold read
  cases p.body s with
  | error e => simp [bind, Except.bind]
  | ok tree =>
    simp only [bind, Except.bind, Except.ok.injEq]
    cases checked : tree.check with
    | error v =>
      simp only [Except.mapError, reduceCtorEq, false_iff, not_and]
      rintro rfl sound
      rw [checked] at sound
      cases sound
    | ok _ =>
      simp only [Except.mapError]
      generalize ParamTable.ofTokens (p.innerTokens s.dialect) = table
      have made : (pure { sql := String.ofList (trimEnd p.text), body := tree, params := table } :
          Except SqlError Statement) = .ok ⟨sql, body, params⟩ ↔
            tree = body ∧ sql = String.ofList (trimEnd p.text) ∧ params = table := by
        simp only [pure, Except.pure, Except.ok.injEq, Statement.mk.injEq]
        tauto
      cases strict : s.strictTypes with
      | false =>
        refine made.trans ⟨?_, fun h => ⟨h.1, h.2.2.2.1, h.2.2.2.2⟩⟩
        rintro ⟨rfl, rfl, rfl⟩
        exact ⟨rfl, checked, nofun, rfl, rfl⟩
      | true =>
        cases clashes : table.conflicts with
        | nil =>
          refine made.trans ⟨?_, fun h => ⟨h.1, h.2.2.2.1, h.2.2.2.2⟩⟩
          rintro ⟨rfl, rfl, rfl⟩
          exact ⟨rfl, checked, fun _ => clashes, rfl, rfl⟩
        | cons c cs =>
          refine ⟨nofun, ?_⟩
          rintro ⟨-, -, sound, -, rfl⟩
          rw [sound rfl] at clashes
          cases clashes

/-- The tree of a piece is cut out of the tokens as text, or the grammar reads it. -/
theorem body_cases {b : Body} (h : p.body s = .ok b) :
    (∃ parts, b = .verbatim parts ∧
      Fragment.ofTokens [] none (p.innerTokens s.dialect) = .ok parts) ∨
      Body.ofTokens s.maxDepth (p.innerTokens s.dialect) = .ok b := by
  unfold body at h
  cases taken : p.decompose s with
  | error e =>
    rw [taken] at h
    cases h
  | ok found =>
    rw [taken] at h
    cases found with
    | none =>
      cases kept : Fragment.ofTokens [] none (p.innerTokens s.dialect) with
      | error e =>
        simp only [kept] at h
        cases h
      | ok parts =>
        simp only [kept] at h
        cases h
        exact .inl ⟨parts, rfl, rfl⟩
    | some tree =>
      cases h
      refine .inr ?_
      unfold decompose at taken
      split at taken
      · split at taken
        · rename_i read
          cases taken
          exact read
        · split at taken <;> cases taken
      · cases taken

/-- A statement that is not kept as text is read by the grammar. -/
theorem ofTokens_of_body {b : Body} (h : p.body s = .ok b) :
    (∃ parts, b = .verbatim parts) ∨
      Body.ofTokens s.maxDepth (p.innerTokens s.dialect) = .ok b :=
  (body_cases h).imp_left fun ⟨parts, verbatim, _⟩ => ⟨parts, verbatim⟩

end Piece

namespace Script

variable {s : ParseSettings} {script : Script} {p : Piece} {st : Statement}

/-- The next piece is taken off somewhere in the script and holds a token. -/
theorem exists_piece (h : (script.nextPiece s).1 = .ok (some p)) : ∃ script' : Script,
    script'.piece s = .ok p ∧ p.tokens ≠ [] ∧
      (s.dialect.delimiterCommand = false → script'.delimiter = script.delimiter) := by
  fun_induction nextPiece s script with
  | case1 => cases h
  | case2 script q found empty ih =>
    obtain ⟨script', taken, full, same⟩ := ih h
    refine ⟨script', taken, full, fun command => (same command).trans ?_⟩
    simp [behind, settle, command]
  | case3 script q found full =>
    cases tokens : q.tokens with
    | nil => simp [tokens] at h
    | cons t ts =>
      simp only [tokens, List.isEmpty_cons, Bool.false_eq_true, if_false, Except.ok.injEq,
        Option.some.injEq] at h
      subst h
      refine ⟨script.settle s.dialect, found, by simp [tokens], fun command => ?_⟩
      simp [settle, command]

theorem delimiter_nextPiece (command : s.dialect.delimiterCommand = false) (script : Script) :
    (script.nextPiece s).2.delimiter = script.delimiter := by
  fun_induction nextPiece s script with
  | case1 => simp [settle, command]
  | case2 script q found empty ih =>
    rw [ih]
    simp [behind, settle, command]
  | case3 => simp [behind, settle, command]

theorem delimiter_next (command : s.dialect.delimiterCommand = false) (script : Script) :
    (script.next s).2.delimiter = script.delimiter := by
  rw [← delimiter_nextPiece command script]
  unfold next
  dsimp only
  split <;> rfl

theorem exists_read (h : (script.next s).1 = .ok (some st)) : ∃ (script' : Script) (p : Piece),
    script'.piece s = .ok p ∧ p.tokens ≠ [] ∧ p.read s = .ok st ∧
      (s.dialect.delimiterCommand = false → script'.delimiter = script.delimiter) := by
  unfold next at h
  dsimp only at h
  split at h
  · cases h
  · cases h
  · rename_i p found
    obtain ⟨script', taken, full, same⟩ := exists_piece found
    refine ⟨script', p, taken, full, ?_, same⟩
    cases outcome : p.read s with
    | error e =>
      rw [outcome] at h
      cases h
    | ok st' =>
      rw [outcome] at h
      cases h
      rfl

/-- A statement of a script is the next one of what is left of the script somewhere. -/
theorem exists_next {sts : List Statement} (h : (script.all s).1 = .ok sts) (member : st ∈ sts) :
    ∃ script' : Script, (script'.next s).1 = .ok (some st) ∧
      (s.dialect.delimiterCommand = false → script'.delimiter = script.delimiter) := by
  fun_induction all s script generalizing sts with
  | case1 script e failed => cases h
  | case2 script none =>
    cases h
    cases member
  | case3 script first found rest script' outcome ih =>
    cases tail : rest with
    | error e =>
      rw [tail] at h
      cases h
    | ok sts' =>
      rw [tail] at h
      cases h
      rcases List.mem_cons.1 member with rfl | member
      · exact ⟨script, found, fun _ => rfl⟩
      · obtain ⟨behind, next, same⟩ := ih (by rw [outcome]; exact tail) member
        exact ⟨behind, next, fun command => (same command).trans (delimiter_next command script)⟩

end Script

/-- The statement is the first of the text, or one of all statements of the text. -/
def Statement.Parsed (s : ParseSettings) (delimiter text : List Char) (st : Statement) : Prop :=
  (∃ rest, (readFirst s delimiter text).1 = .ok (st, rest)) ∨
    ∃ sts, (readAll s delimiter text).1 = .ok sts ∧ st ∈ sts

namespace Statement

variable {s : ParseSettings} {delimiter text : List Char} {st : Statement}

/-- A statement of a text is read from a piece of the text. -/
theorem Parsed.exists_piece (h : st.Parsed s delimiter text) : ∃ (script : Script) (p : Piece),
    script.piece s = .ok p ∧ p.tokens ≠ [] ∧ p.read s = .ok st ∧
      (s.dialect.delimiterCommand = false → script.delimiter = delimiter) := by
  rcases h with ⟨rest, first⟩ | ⟨sts, all, member⟩
  · cases found : ((Script.ofText delimiter text).next s).1 with
    | error e =>
      rw [readFirst_of_error found] at first
      cases first
    | ok answer =>
      cases answer with
      | none =>
        rw [readFirst_of_none found] at first
        cases first
      | some st' =>
        rw [readFirst_of_some found] at first
        cases first
        exact Script.exists_read found
  · have whole : ((Script.ofText delimiter text).all s).1 = .ok sts := by
      unfold readAll at all
      dsimp only at all
      split at all
      · cases all
      · exact all
    obtain ⟨script, next, same⟩ := Script.exists_next whole member
    obtain ⟨script', p, taken, full, read, same'⟩ := Script.exists_read next
    exact ⟨script', p, taken, full, read, fun command => (same' command).trans (same command)⟩

/-- The first piece of a text is read as the first statement. -/
theorem parsed_of_read {p : Piece}
    (found : ((Script.ofText delimiter text).settle s.dialect).piece s = .ok p)
    (full : p.tokens ≠ []) (read : p.read s = .ok st) : st.Parsed s delimiter text := by
  have next := Script.next_of_some (Script.nextPiece_of_tokens found full)
  rw [read] at next
  exact .inl ⟨_, congrArg Prod.fst (readFirst_of_some (congrArg Prod.fst next))⟩

/-- A statement that the grammar takes apart, given the tokens of the first piece of a text. -/
theorem parsed_of_piece {p : Piece}
    (found : ((Script.ofText delimiter text).settle s.dialect).piece s = .ok p)
    (full : p.tokens ≠ []) (inner : p.innerTokens s.dialect = p.tokens ++ [p.terminator])
    (opens : Piece.opensStatement p.lead.kind) (lax : s.strictTypes = false)
    (body : Body.ofTokens s.maxDepth (p.tokens ++ [p.terminator]) = .ok st.body)
    (sound : st.body.check = .ok ()) (sql : st.sql = String.ofList (trimEnd p.text))
    (params : st.params = ParamTable.ofTokens (p.tokens ++ [p.terminator])) :
    st.Parsed s delimiter text := by
  have taken : p.decompose s = .ok (some st.body) := by
    rw [Piece.decompose, if_pos opens, inner, body]
  have tree : p.body s = .ok st.body := by
    rw [Piece.body, taken]
    rfl
  have read : p.read s = .ok st :=
    Piece.read_eq_ok_iff.2 ⟨tree, sound, by simp [lax], sql, inner ▸ params⟩
  exact parsed_of_read found full read

/-- A statement that is kept as text, given the tokens of the first piece of a text. -/
theorem parsed_of_verbatim {p : Piece} {parts : List Fragment}
    (found : ((Script.ofText delimiter text).settle s.dialect).piece s = .ok p)
    (full : p.tokens ≠ []) (inner : p.innerTokens s.dialect = p.tokens ++ [p.terminator])
    (opens : Piece.opensStatement p.lead.kind = false) (lax : s.strictTypes = false)
    (kept : st.body = .verbatim parts)
    (cut : Fragment.ofTokens [] none (p.tokens ++ [p.terminator]) = .ok parts)
    (sql : st.sql = String.ofList (trimEnd p.text))
    (params : st.params = ParamTable.ofTokens (p.tokens ++ [p.terminator])) :
    st.Parsed s delimiter text := by
  have taken : p.decompose s = .ok none := by
    rw [Piece.decompose, opens]
    rfl
  have tree : p.body s = .ok st.body := by
    rw [Piece.body, taken, inner, cut, kept]
    rfl
  have sound : st.body.check = .ok () := by
    rw [kept]
    rfl
  have read : p.read s = .ok st :=
    Piece.read_eq_ok_iff.2 ⟨tree, sound, by simp [lax], sql, inner ▸ params⟩
  exact parsed_of_read found full read

end Statement

/-! ## Texts of one line -/

/-- A token on the first line of a text. -/
def Token.onLine (kind : TokenKind) (gap text : String) (offset : Nat) : Token :=
  ⟨kind, gap.toList, text.toList, ⟨offset, 1, offset + 1⟩⟩

/-- The piece that is all of a line of the standard dialect. -/
def Piece.onLine (ts : List Token) (length : Nat) : Piece :=
  ⟨ts, .onLine .eof "" "" length, ⟨{ dialect := .standard }, [], ⟨length, 1, length + 1⟩, 0⟩⟩

end BoundSql
