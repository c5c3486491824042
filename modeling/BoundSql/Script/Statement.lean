import BoundSql.Grammar.Statement
import BoundSql.Script.Piece
import BoundSql.Settings
import BoundSql.Tree.Check

/-!
# Statements of a script

A piece of a script becomes a `Statement`: its tokens are read by the grammar or, if the grammar
does not take such statements apart, kept as text cut around the placeholders. `Script.next` reads
the statements one after the other, `Script.all` all of them.
-/

namespace BoundSql

open Text

namespace Fragment

/-- A text as fragments; none if it is empty. -/
def ofText (cs : List Char) : List Fragment :=
  if cs.isEmpty then [] else [.text (String.ofList cs)]

/-- The constant that a token stands for. -/
def literal? : TokenKind → Option Literal
  | .integer n => some (.integer n)
  | .float x => some (.float x)
  | .string s => some (.string s)
  | .blob bytes => some (.blob bytes)
  | _ => none

/-- The parameter that a token stands for. A literal in front of an attached placeholder becomes
the default. -/
def param? (before : Option Literal) : TokenKind → Option ParamRef
  | .param p => some { ParamRef.ofKey p.key with default := if p.attached then before else none }
  | .hostParam name => some (.ofKey (.named name))
  | _ => none

/-- Cuts the text of tokens around the placeholders. `copied` is the text since the last placeholder
and `held` the constant that was the last token, with its text: it is dropped if it becomes a
default. Blanks at the end of the text are dropped. -/
def ofTokens (copied : List Char) (held : Option (Literal × List Char)) :
    List Token → Except SqlError (List Fragment)
  | [] => .ok (ofText (trimEnd (copied ++ (held.map (·.2)).getD [])))
  | t :: ts =>
    match t.kind with
    | .error e => .error (.lexical e t.pos)
    | kind =>
      match param? (held.map (·.1)) kind, held with
      | some p, some (_, lexeme) =>
        let copied := if p.default.isSome then copied else copied ++ lexeme ++ t.gap
        (ofTokens [] none ts).map (ofText copied ++ .param p :: ·)
      | some p, none => (ofTokens [] none ts).map (ofText (copied ++ t.gap) ++ .param p :: ·)
      | none, held =>
        let copied := copied ++ (held.map (·.2)).getD [] ++ t.gap
        match literal? kind with
        | some l => ofTokens copied (some (l, t.lexeme)) ts
        | none => ofTokens (copied ++ t.lexeme) none ts

end Fragment

namespace Piece

/-- The first token, or the terminator of an empty piece. -/
def lead (p : Piece) : Token := p.tokens.headD p.terminator

/-- Whether the grammar knows statements that begin with such a token. -/
def opensStatement : TokenKind → Bool
  | .punct .leftParen => true
  | .keyword k =>
    [ Keyword.SELECT, .INSERT, .REPLACE, .UPDATE, .DELETE, .BEGIN, .START, .COMMIT, .END, .ROLLBACK,
      .SAVEPOINT, .RELEASE ].contains k
  | _ => false

/-- Whether statements that begin with such a token may be commands that the grammar does not
know. -/
def opensBlock (kind : TokenKind) : Bool := kind == .keyword .BEGIN || kind == .keyword .START

/-- The tokens, read again without regard to blocks and delimiters. -/
def innerTokens (d : Dialect) (p : Piece) : List Token :=
  (Lexer.ofText { dialect := d } p.text p.lead.pos).tokens

/-- The tree of a piece that the grammar takes apart, if it does. -/
def decompose (s : ParseSettings) (p : Piece) : Except ParseError (Option Body) :=
  if opensStatement p.lead.kind then
    match Body.ofTokens s.maxDepth (p.innerTokens s.dialect) with
    | .ok body => .ok (some body)
    | .error e => if !e.isOverflow && opensBlock p.lead.kind then .ok none else .error e
  else .ok none

/-- The tree of a piece. -/
def body (s : ParseSettings) (p : Piece) : Except SqlError Body := do
  match ← (p.decompose s).mapError .grammar with
  | some body => return body
  | none => return .verbatim (← Fragment.ofTokens [] none (p.innerTokens s.dialect))

/-- Reads a piece as a statement and checks the rules about its shape. -/
def read (s : ParseSettings) (p : Piece) : Except SqlError Statement := do
  let body ← p.body s
  let params := ParamTable.ofTokens (p.innerTokens s.dialect)
  body.check.mapError .malformed
  if s.strictTypes then
    match params.conflicts with
    | c :: _ => throw (.malformed (.typeClash c))
    | [] => pure ()
  return { sql := String.ofList (trimEnd p.text), body, params }

end Piece

/-- What is left of a script, and the delimiter that ends its statements. -/
structure Script where
  /-- The delimiter; empty if it is the semicolon. -/
  delimiter : List Char
  place : Place

namespace Script

/-- A script at its beginning. -/
def ofText (delimiter text : List Char) : Script := ⟨delimiter, .ofText text⟩

/-- The script behind the `DELIMITER` lines that stand here, where the dialect has them. -/
def settle (d : Dialect) (s : Script) : Script :=
  if d.delimiterCommand then
    let (delimiter, place) := s.place.skipDelimiterLines s.delimiter
    ⟨delimiter, place⟩
  else s

theorem length_settle_le (d : Dialect) (s : Script) :
    (s.settle d).place.rest.length ≤ s.place.rest.length := by
  unfold settle
  split
  · exact Place.length_skipDelimiterLines_le _ _
  · exact Nat.le_refl _

/-- Takes the piece off that stands here. -/
def piece (s : ParseSettings) (script : Script) : Except SqlError Piece :=
  let lexicon : Token.Lexicon := { dialect := s.dialect, delimiter := script.delimiter }
  (Lexer.ofText lexicon script.place.rest script.place.pos).piece s.maxLength .start none

/-- The script behind a piece of it. -/
def behind (script : Script) (p : Piece) : Script := { script with place := ⟨p.after.rest, p.after.pos⟩ }

theorem length_behind {s : ParseSettings} {script : Script} {p : Piece}
    (h : script.piece s = .ok p) :
    (script.behind p).place.rest.length ≤ script.place.rest.length ∧
      (p.tokens ≠ [] ∨ p.terminator.kind ≠ .eof →
        (script.behind p).place.rest.length < script.place.rest.length) :=
  Lexer.length_rest_piece h

/-- Takes the next piece off that holds a token, if there is one. -/
def nextPiece (s : ParseSettings) (script : Script) : Except SqlError (Option Piece) × Script :=
  match _h : (script.settle s.dialect).piece s with
  | .error e => (.error e, script.settle s.dialect)
  | .ok p =>
    if _hp : p.tokens = [] ∧ p.terminator.kind ≠ .eof then
      ((script.settle s.dialect).behind p).nextPiece s
    else (.ok (if p.tokens.isEmpty then none else some p), (script.settle s.dialect).behind p)
termination_by script.place.rest.length
decreasing_by
  exact Nat.lt_of_lt_of_le ((length_behind _h).2 (.inr _hp.2)) (script.length_settle_le _)

/-- Taking a piece off leaves less of the script. -/
theorem length_nextPiece_lt {s : ParseSettings} {script : Script} {p : Piece}
    (h : (script.nextPiece s).1 = .ok (some p)) :
    (script.nextPiece s).2.place.rest.length < script.place.rest.length := by
  fun_induction nextPiece s script with
  | case1 => cases h
  | case2 script q hq hempty ih =>
    have := (length_behind hq).2 (.inr hempty.2)
    have := script.length_settle_le s.dialect
    have := ih h
    omega
  | case3 script q hq hfull =>
    have hq' := length_behind hq
    split at h
    · cases h
    · rename_i hne
      have := hq'.2 (.inl (by simpa using hne))
      exact Nat.lt_of_lt_of_le this (script.length_settle_le s.dialect)

/-- Reads the next statement, if there is one. -/
def next (s : ParseSettings) (script : Script) : Except SqlError (Option Statement) × Script :=
  let (found, rest) := script.nextPiece s
  match found with
  | .error e => (.error e, rest)
  | .ok none => (.ok none, rest)
  | .ok (some p) => ((p.read s).map some, rest)

/-- Reading a statement leaves less of the script. -/
theorem length_next_lt {s : ParseSettings} {script : Script} {st : Statement}
    (h : (script.next s).1 = .ok (some st)) :
    (script.next s).2.place.rest.length < script.place.rest.length := by
  unfold next at h ⊢
  dsimp only at h ⊢
  split at h
  · cases h
  · cases h
  · rename_i hp
    exact length_nextPiece_lt hp

/-- Reads all statements. -/
def all (s : ParseSettings) (script : Script) : Except SqlError (List Statement) × Script :=
  match _h : (script.next s).1 with
  | .error e => (.error e, (script.next s).2)
  | .ok none => (.ok [], (script.next s).2)
  | .ok (some st) =>
    let (rest, script) := (script.next s).2.all s
    (rest.map (st :: ·), script)
termination_by script.place.rest.length
decreasing_by exact length_next_lt _h

end Script

/-- The first statement of a text, and the text behind it without the blanks it starts with. The
delimiter that is in force before and after the call is given by its characters. -/
def Statement.readFirst (s : ParseSettings) (delimiter text : List Char) :
    Except SqlError (Statement × List Char) × List Char :=
  let (found, script) := (Script.ofText delimiter text).next s
  let answer := match found with
    | .error e => .error e
    | .ok none => .error .noStatement
    | .ok (some st) => .ok (st, trimStart script.place.rest)
  (answer, script.delimiter)

/-- All statements of a text, of which there must be one. -/
def Statement.readAll (s : ParseSettings) (delimiter text : List Char) :
    Except SqlError (List Statement) × List Char :=
  let (found, script) := (Script.ofText delimiter text).all s
  let answer := match found with
    | .ok [] => .error .noStatement
    | other => other
  (answer, script.delimiter)

end BoundSql
