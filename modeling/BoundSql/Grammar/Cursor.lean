import BoundSql.Token.Lexer
import BoundSql.Tree.Expr

/-!
# Reading tokens by a grammar

A `Parse` computation looks at the current token, moves on, and either yields a value or fails at
the token that the grammar does not allow. The last token is the end of the input, and moving on
stays there.
-/

namespace BoundSql

/-- Why tokens do not follow the grammar. -/
inductive ParseCause
  /-- Something else should stand here. -/
  | expected (what : String)
  /-- Expressions and queries nest deeper than the limit. -/
  | tooDeep (limit : Nat)
  /-- The argument of a type does not fit in 32 bits. -/
  | typeArgument
  deriving DecidableEq, Repr

/-- A failure to follow the grammar, and the token where it shows. -/
structure ParseError where
  cause : ParseCause
  token : Token
  deriving DecidableEq, Repr

namespace ParseError

/-- What went wrong. A token that is an error in itself speaks for itself. -/
def message (e : ParseError) : String :=
  match e.cause, e.token.kind with
  | .expected _, .error lexical => lexical.message
  | .expected what, kind => s!"expected {what}, found {kind.describe}"
  | .tooDeep limit, _ => s!"expression nesting exceeds {limit} levels"
  | .typeArgument, _ => "type argument out of range"

/-- What went wrong and where. -/
def display (e : ParseError) : String :=
  s!"{e.message} at line {e.token.pos.line}, column {e.token.pos.col}"

/-- What the grammar asked for. -/
def expected? (e : ParseError) : Option String :=
  match e.cause with
  | .expected what => some what
  | _ => none

/-- What stood there instead. -/
def found? (e : ParseError) : Option TokenKind :=
  match e.cause with
  | .expected _ => some e.token.kind
  | _ => none

/-- Whether a limit was hit rather than the grammar. -/
def isOverflow (e : ParseError) : Bool :=
  match e.cause with
  | .tooDeep _ => true
  | _ => false

end ParseError

/-- A place among tokens: the current one and those behind it. -/
structure Cursor where
  current : Token
  following : List Token
  deriving Repr

namespace Cursor

/-- The token that stands for the end of an empty list of tokens. -/
def eofToken : Token := { kind := .eof, gap := [], lexeme := [], pos := .start }

/-- The place in front of the tokens. -/
def ofTokens : List Token → Cursor
  | [] => ⟨eofToken, []⟩
  | t :: ts => ⟨t, ts⟩

/-- The place one token further on. -/
def next (c : Cursor) : Cursor :=
  match c.following with
  | [] => c
  | t :: ts => ⟨t, ts⟩

end Cursor

/-- A computation that reads tokens. -/
abbrev Parse (α : Type) := StateT Cursor (Except ParseError) α

namespace Parse

/-- The current token. -/
def current : Parse Token := do return (← get).current

/-- What the current token means. -/
def kind : Parse TokenKind := do return (← get).current.kind

/-- What the token behind the current one means. -/
def nextKind : Parse TokenKind := do return (← get).next.current.kind

/-- Moves on by one token. -/
def advance : Parse Unit := modify Cursor.next

/-- Fails at the current token. -/
def failWith {α : Type} (cause : ParseCause) : Parse α := fun c =>
  .error { cause, token := c.current }

/-- Fails because something else should stand here. -/
def fail {α : Type} (what : String) : Parse α := failWith (.expected what)

/-- Whether the current token is this one. -/
def isAt (k : TokenKind) : Parse Bool := do return (← kind) == k

/-- Moves on if the current token is this one, and says whether it was. -/
def accept (k : TokenKind) : Parse Bool := do
  if ← isAt k then
    advance
    return true
  return false

/-- Moves on over this keyword, if it stands here. -/
def acceptWord (k : Keyword) : Parse Bool := accept (.keyword k)

/-- Moves on over this sign, if it stands here. -/
def acceptSign (p : Punct) : Parse Bool := accept (.punct p)

/-- Moves on over this keyword, which must stand here. -/
def word (k : Keyword) : Parse Unit := do
  unless ← acceptWord k do fail k.spelling

/-- Moves on over this sign, which must stand here. -/
def sign (p : Punct) : Parse Unit := do
  unless ← acceptSign p do fail (TokenKind.punct p).describe

/-- Reads with `p` if this keyword stands here, and moves on over it. -/
def afterWord {α : Type} (k : Keyword) (p : Parse α) : Parse (Option α) := do
  if ← acceptWord k then some <$> p else return none

/-- The name that stands here, as written: an identifier, or a keyword that is not reserved. -/
def name (what : String) : Parse String := do
  let t ← current
  match t.kind with
  | .identifier text => advance; return text
  | .keyword k => if k.isReserved then fail what else do advance; return t.text
  | _ => fail what

/-- The name behind a point, which may be any keyword. -/
def memberName : Parse String := do
  let t ← current
  match t.kind with
  | .keyword _ => advance; return t.text
  | _ => name "identifier"

/-- Repeats a step until it has nothing to do, `fuel` times at most. -/
def repeatFrom {σ : Type} (step : σ → Parse (Option σ)) : Nat → σ → Parse σ
  | 0, s => return s
  | fuel + 1, s => do
    match ← step s with
    | none => return s
    | some s => repeatFrom step fuel s

/-- Repeats a step that moves on until it has nothing to do. There are not more tokens than steps
allowed. -/
def repeatStep {σ : Type} (step : σ → Parse (Option σ)) (s : σ) : Parse σ := do
  repeatFrom step ((← get).following.length + 1) s

/-- Items with commas between them, `fuel + 1` at most. -/
def commaSepFrom {α : Type} (item : Parse α) : Nat → Parse (List α)
  | 0 => do return [← item]
  | fuel + 1 => do
    let x ← item
    if ← acceptSign .comma then return x :: (← commaSepFrom item fuel) else return [x]

/-- Items with commas between them, at least one. -/
def commaSep {α : Type} (item : Parse α) : Parse (List α) := do
  commaSepFrom item (← get).following.length

/-- What `p` reads between parentheses. -/
def parenthesized {α : Type} (p : Parse α) : Parse α := do
  sign .leftParen
  let x ← p
  sign .rightParen
  return x

/-- A name with its qualifiers. -/
def qualifiedName (what : String) : Parse Identifier := do
  let first ← name what
  let parts ← repeatStep (fun parts => do
    if ← acceptSign .dot then return some (parts ++ [← memberName]) else return none) [first]
  return ⟨parts⟩

/-- Names with commas between them. -/
def columnNames : Parse (List String) := commaSep (name "column name")

end Parse

end BoundSql
