import BoundSql.Proofs.Grammar.Invariance
import BoundSql.Proofs.Script.Piece

/-!
# Limits and strictness

The limits of length and nesting and the strictness about types refuse statements, and that is all
they do. Under settings that allow more, a script is read as before unless one of the settings
refused it, so it is the same statements or fails with the same error: `Statement.readAll_within`.
-/

namespace BoundSql

open Text Token

/-- The settings `s'` read the dialect of `s` and allow all that `s` allows. -/
structure ParseSettings.Within (s s' : ParseSettings) : Prop where
  dialect : s'.dialect = s.dialect
  maxLength : s.maxLength ≤ s'.maxLength
  maxDepth : s.maxDepth ≤ s'.maxDepth
  strictTypes : s'.strictTypes = true → s.strictTypes = true

/-- The error says that a limit was exceeded, or that a parameter has two types. -/
def SqlError.IsGuard : SqlError → Prop
  | .grammar e => e.isOverflow = true
  | .tooLong _ _ => True
  | .malformed (.typeClash _) => True
  | _ => False

theorem SqlError.not_isGuard {e : SqlError} (h : e.kind = .syntaxError ∨ e.kind = .emptySql) :
    ¬ e.IsGuard := by
  intro guard
  cases e with
  | grammar e =>
    have overflow : e.isOverflow = true := guard
    simp [kind, overflow] at h
  | tooLong limit pos => simp [kind] at h
  | malformed v => simp [kind] at h
  | lexical _ _ => exact guard
  | noStatement => exact guard
  | bind _ _ => exact guard
  | render _ => exact guard

section Stopped

variable {α β : Type} {x x' : Except SqlError α}

/-- A limit or the strictness refused it. -/
def Stopped (x : Except SqlError α) : Prop := ∃ e, x = .error e ∧ e.IsGuard

/-- The second outcome is the first one, if that was not refused by a limit or the strictness. -/
def Eases (x x' : Except SqlError α) : Prop := Stopped x ∨ x' = x

theorem Stopped.map (h : Stopped x) (g : α → β) : Stopped (x.map g) := by
  obtain ⟨e, rfl, guard⟩ := h
  exact ⟨e, rfl, guard⟩

theorem Eases.refl (x : Except SqlError α) : Eases x x := .inr rfl

theorem Eases.map (h : Eases x x') (g : α → β) : Eases (x.map g) (x'.map g) := by
  rcases h with stopped | rfl
  · exact .inl (stopped.map g)
  · exact .refl _

theorem Eases.bind {k k' : α → Except SqlError β} (hx : Eases x x')
    (hk : ∀ a, Eases (k a) (k' a)) : Eases (x >>= k) (x' >>= k') := by
  rcases hx with ⟨e, rfl, guard⟩ | rfl
  · exact .inl ⟨e, rfl, guard⟩
  · cases x' with
    | error e => exact .refl _
    | ok a => exact hk a

end Stopped

/-! ## One piece -/

/-- A token that does not reach too far ends a piece under a larger limit as well, or does not. -/
theorem Token.endsPiece_of_le {limit limit' : Nat} (h : limit ≤ limit') (first : Nat) (t : Token) :
    Eases (t.endsPiece limit first) (t.endsPiece limit' first) := by
  unfold endsPiece
  split
  · exact .refl _
  · exact .refl _
  · exact .refl _
  · by_cases long : limit < t.span.stop - first
    · rw [if_pos long]
      exact .inl ⟨_, rfl, trivial⟩
    · have short : ¬ limit' < t.span.stop - first := fun more => long (Nat.lt_of_le_of_lt h more)
      rw [if_neg long, if_neg short]
      exact .refl _

theorem Lexer.piece_of_le {limit limit' : Nat} (h : limit ≤ limit') (blocks : BlockState)
    (start : Option Nat) (l : Lexer) :
    Eases (l.piece limit blocks start) (l.piece limit' blocks start) := by
  induction hn : l.rest.length using Nat.strongRecOn generalizing l blocks start with
  | ind n ih =>
    have ends : Eases (l.atEnd limit blocks start) (l.atEnd limit' blocks start) :=
      Token.endsPiece_of_le h _ _
    rcases ends with ⟨e, failed, guard⟩ | same
    · rw [piece_of_error failed]
      exact .inl ⟨e, rfl, guard⟩
    · cases found : l.atEnd limit blocks start with
      | error e =>
        rw [piece_of_error found, piece_of_error (same.trans found)]
        exact .refl _
      | ok ended =>
        cases ended with
        | true =>
          rw [piece_of_true found, piece_of_true (same.trans found)]
          exact .refl _
        | false =>
          have shorter := length_rest_next_lt (next_inner found).1
          rw [piece_of_false found, piece_of_false (same.trans found)]
          exact (ih _ (hn ▸ shorter) _ _ _ rfl).map _

namespace Piece

variable {s s' : ParseSettings}

theorem decompose_within (h : s.Within s') (p : Piece) :
    Parse.Overflows (p.decompose s) ∨ p.decompose s' = p.decompose s := by
  rw [decompose, decompose, h.dialect]
  split
  · rcases Body.ofTokens_of_le h.maxDepth (p.innerTokens s.dialect) with ⟨e, failed, overflow⟩ | same
    · rw [failed]
      refine .inl ⟨e, ?_, overflow⟩
      simp [overflow]
    · rw [same]
      exact .inr rfl
  · exact .inr rfl

theorem body_within (h : s.Within s') (p : Piece) : Eases (p.body s) (p.body s') := by
  rw [body, body, h.dialect]
  rcases decompose_within h p with ⟨e, failed, overflow⟩ | same
  · rw [failed]
    exact .inl ⟨.grammar e, rfl, overflow⟩
  · rw [same]
    exact .refl _

theorem read_within (h : s.Within s') (p : Piece) : Eases (p.read s) (p.read s') := by
  rw [read, read, h.dialect]
  refine (body_within h p).bind fun body => ?_
  refine (Eases.refl (body.check.mapError .malformed)).bind fun _ => ?_
  by_cases strict : s.strictTypes = true
  · rw [if_pos strict]
    cases clash : (ParamTable.ofTokens (p.innerTokens s.dialect)).conflicts with
    | cons c cs => exact .inl ⟨.malformed (.typeClash c), rfl, trivial⟩
    | nil =>
      by_cases strict' : s'.strictTypes = true
      · rw [if_pos strict']
        exact .refl _
      · rw [if_neg strict']
        exact .refl _
  · have lax : ¬ s'.strictTypes = true := fun strict' => strict (h.strictTypes strict')
    rw [if_neg strict, if_neg lax]
    exact .refl _

end Piece

/-! ## The script -/

namespace Script

variable {s s' : ParseSettings}

theorem piece_within (h : s.Within s') (script : Script) :
    Eases (script.piece s) (script.piece s') := by
  rw [piece, piece, h.dialect]
  exact Lexer.piece_of_le h.maxLength _ _ _

theorem nextPiece_within (h : s.Within s') (script : Script) :
    Stopped (script.nextPiece s).1 ∨ script.nextPiece s' = script.nextPiece s := by
  induction hn : script.place.rest.length using Nat.strongRecOn generalizing script with
  | ind n ih =>
    have eases := piece_within h (script.settle s.dialect)
    have settled : script.settle s'.dialect = script.settle s.dialect := by rw [h.dialect]
    cases found : (script.settle s.dialect).piece s with
    | error e =>
      rw [found] at eases
      rw [nextPiece_of_error found]
      rcases eases with stopped | same
      · obtain ⟨e', refused, guard⟩ := stopped
        cases refused
        exact .inl ⟨e, rfl, guard⟩
      · rw [← settled] at same
        rw [nextPiece_of_error same, settled]
        exact .inr rfl
    | ok p =>
      have same : (script.settle s'.dialect).piece s' = .ok p := by
        rcases eases with ⟨e, failed, -⟩ | same
        · cases found.symm.trans failed
        · rw [settled, same, found]
      by_cases empty : p.tokens = []
      · by_cases ended : p.terminator.kind = .eof
        · rw [nextPiece_of_eof found empty ended, nextPiece_of_eof same empty ended, settled]
          exact .inr rfl
        · rw [nextPiece_of_empty found empty ended, nextPiece_of_empty same empty ended, settled]
          have behind := (length_behind found).2 (.inr ended)
          have within := script.length_settle_le s.dialect
          exact ih _ (by omega) _ rfl
      · rw [nextPiece_of_tokens found empty, nextPiece_of_tokens same empty, settled]
        exact .inr rfl

theorem next_within (h : s.Within s') (script : Script) :
    Stopped (script.next s).1 ∨ script.next s' = script.next s := by
  rcases nextPiece_within h script with ⟨e, failed, guard⟩ | same
  · have answer : script.next s = (.error e, (script.nextPiece s).2) :=
      next_of_error (Prod.ext failed rfl)
    rw [answer]
    exact .inl ⟨e, rfl, guard⟩
  · rw [next, next, same]
    rcases found : script.nextPiece s with ⟨answer, rest⟩
    cases answer with
    | error e => exact .inr rfl
    | ok outcome =>
      cases outcome with
      | none => exact .inr rfl
      | some p =>
        rcases Piece.read_within h p with stopped | same
        · exact .inl (stopped.map some)
        · dsimp only
          rw [same]
          exact .inr rfl

theorem all_within (h : s.Within s') (script : Script) :
    Stopped (script.all s).1 ∨ script.all s' = script.all s := by
  induction hn : script.place.rest.length using Nat.strongRecOn generalizing script with
  | ind n ih =>
    rcases next_within h script with ⟨e, failed, guard⟩ | same
    · rw [all_of_error failed]
      exact .inl ⟨e, rfl, guard⟩
    · have answer : (script.next s').1 = (script.next s).1 := congrArg Prod.fst same
      cases found : (script.next s).1 with
      | error e =>
        rw [all_of_error found, all_of_error (answer.trans found), same]
        exact .inr rfl
      | ok outcome =>
        cases outcome with
        | none =>
          rw [all_of_none found, all_of_none (answer.trans found), same]
          exact .inr rfl
        | some st =>
          rw [all_of_some found, all_of_some (answer.trans found), same]
          rcases ih _ (hn ▸ length_next_lt found) _ rfl with stopped | rest
          · exact .inl (stopped.map _)
          · rw [rest]
            exact .inr rfl

end Script

namespace Statement

variable {s s' : ParseSettings}

theorem readAll_eases (h : s.Within s') (delimiter text : List Char) :
    Stopped (readAll s delimiter text).1 ∨
      readAll s' delimiter text = readAll s delimiter text := by
  rcases Script.all_within h (Script.ofText delimiter text) with ⟨e, failed, guard⟩ | same
  · refine .inl ⟨e, ?_, guard⟩
    rw [readAll]
    dsimp only
    rw [failed]
  · rw [readAll, readAll, same]
    exact .inr rfl

/-- Settings that allow more change neither the statements of a script that can be read nor a
syntax error or the lack of any statement, and they leave the same delimiter in force. -/
theorem readAll_within (h : s.Within s') (delimiter text : List Char) :
    (∀ sts, (readAll s delimiter text).1 = .ok sts →
      readAll s' delimiter text = (.ok sts, (readAll s delimiter text).2)) ∧
    ∀ e, (readAll s delimiter text).1 = .error e → e.kind = .syntaxError ∨ e.kind = .emptySql →
      readAll s' delimiter text = (.error e, (readAll s delimiter text).2) := by
  constructor
  · intro sts read
    rcases readAll_eases h delimiter text with ⟨e, failed, -⟩ | same
    · cases failed.symm.trans read
    · rw [same, ← read]
  · intro e failed kind
    rcases readAll_eases h delimiter text with ⟨e', failed', guard⟩ | same
    · cases failed'.symm.trans failed
      exact absurd guard (SqlError.not_isGuard kind)
    · rw [same, ← failed]

/-- The statement `x` is read where one byte and no nesting are allowed, and so it is by default. -/
theorem readAll_within_name :
    let narrow : ParseSettings := { maxLength := 1, maxDepth := 0, strictTypes := true }
    narrow.Within {} ∧
      readAll narrow [] ['x'] = (.ok [⟨"x", .verbatim [.text "x"], ⟨[], []⟩⟩], []) ∧
      readAll {} [] ['x'] = (.ok [⟨"x", .verbatim [.text "x"], ⟨[], []⟩⟩], []) := by
  intro narrow
  have within : narrow.Within {} := ⟨rfl, by decide, by decide, by decide⟩
  have read : readAll narrow [] ['x'] = (.ok [⟨"x", .verbatim [.text "x"], ⟨[], []⟩⟩], []) := by
    rw [readAll, Script.all_letter (s := narrow) (Nat.le_refl 1) (by simp)]
  refine ⟨within, read, ?_⟩
  rw [(readAll_within within [] ['x']).1 _ (congrArg Prod.fst read), read]

end Statement

end BoundSql
