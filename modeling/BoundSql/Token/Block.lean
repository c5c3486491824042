import BoundSql.Dialect
import BoundSql.Token.Basic

/-!
# Procedural blocks

While a script is split into statements, the semicolons inside `BEGIN ... END` and its relatives
must not end a statement. `BlockState` follows the nesting token by token.
-/

namespace BoundSql

/-- How much of `CREATE ... <routine> ... AS` has been read. -/
inductive RoutineHead
  | none
  | create
  | routine
  deriving DecidableEq, Repr

/-- The nesting of procedural blocks between two tokens. -/
structure BlockState where
  /-- The number of open blocks. -/
  level : Nat
  /-- The innermost block was opened by its declarations; the BEGIN of its body does not nest. -/
  awaitsBegin : Bool
  /-- An END was read; unless IF follows, it closes a block. -/
  pendingEnd : Bool
  /-- The next token is the first of its statement. -/
  atStart : Bool
  head : RoutineHead
  deriving DecidableEq, Repr

namespace BlockState

/-- The state in front of a statement. -/
def start : BlockState :=
  { level := 0, awaitsBegin := false, pendingEnd := false, atStart := true, head := .none }

/-- The words that make a CREATE define a routine. -/
def routineWords : List String := ["PROCEDURE", "FUNCTION", "PACKAGE", "TRIGGER", "TYPE"]

/-- Closes the block whose END was the last token, unless this token shows that it was END IF. -/
def settle (s : BlockState) (kind : TokenKind) : BlockState :=
  if s.pendingEnd then
    { s with
      pendingEnd := false
      level := if kind = .keyword .IF then s.level else s.level - 1 }
  else s

/-- Opens a block. -/
def deepen (s : BlockState) : BlockState := { s with level := s.level + 1 }

/-- The effect of a token on the nesting, and the token as it is now understood: inside a block a
semicolon does not end the statement. -/
def enter (d : Dialect) (s : BlockState) (kind : TokenKind) : BlockState × TokenKind :=
  match kind with
  | .keyword .BEGIN =>
    if s.atStart then (s, kind)
    else if s.awaitsBegin then ({ s with awaitsBegin := false }, kind)
    else (s.deepen, kind)
  | .keyword .CASE | .keyword .LOOP => if s.atStart then (s, kind) else (s.deepen, kind)
  | .keyword .END => if 0 < s.level then ({ s with pendingEnd := true }, kind) else (s, kind)
  | .keyword .DECLARE => if s.atStart then ({ s.deepen with awaitsBegin := true }, kind) else (s, kind)
  | .keyword .CREATE =>
    if s.atStart && d.createOpensBlock then ({ s with head := .create }, kind) else (s, kind)
  | .identifier word =>
    if s.head = .create && routineWords.contains word.toUpper then
      ({ s with head := .routine }, kind)
    else (s, kind)
  | .keyword .AS | .keyword .IS =>
    if s.head = .routine then ({ s.deepen with awaitsBegin := true, head := .none }, kind)
    else (s, kind)
  | .punct .semicolon => (s, if 0 < s.level then .punct .blockSemicolon else kind)
  | _ => (s, kind)

/-- A statement delimiter starts the next statement. -/
def finish (s : BlockState) (kind : TokenKind) : BlockState :=
  if kind = .punct .semicolon then { s with atStart := true, awaitsBegin := false, head := .none }
  else { s with atStart := false }

/-- The state after a token, and the token as it is understood inside the nesting. -/
def step (d : Dialect) (s : BlockState) (t : Token) : BlockState × Token :=
  let (s', kind) := (s.settle t.kind).enter d t.kind
  (s'.finish kind, { t with kind })

/-- The tokens as they are understood inside the nesting, each with the level after it. -/
def track (d : Dialect) : BlockState → List Token → List (Token × Nat)
  | _, [] => []
  | s, t :: ts =>
    let (s', t') := s.step d t
    (t', s'.level) :: track d s' ts

end BlockState

end BoundSql
