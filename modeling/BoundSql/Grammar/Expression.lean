import BoundSql.Grammar.Binding
import BoundSql.Grammar.Cursor
import BoundSql.Number.Width
import BoundSql.Tree.Expr

/-!
# The grammar of expressions

Expressions are read by powers of binding. What stands in parentheses, in an argument or in an
operand is read through `Nested`, which counts the nesting.
-/

namespace BoundSql.Grammar

open Parse

/-- How expressions and queries one level deeper are read. -/
structure Nested where
  /-- Reads an expression whose operators bind at least this tightly. -/
  expr : Nat → Parse Expr
  query : Parse Query

/-- The literal that a token is. -/
def literal? : TokenKind → Option Literal
  | .integer n => some (.integer n)
  | .float x => some (.float x)
  | .string s => some (.string s)
  | .blob b => some (.blob b)
  | .keyword .NULL => some .null
  | .keyword .TRUE => some (.boolean true)
  | .keyword .FALSE => some (.boolean false)
  | _ => none

/-- A literal, its token being the current one. A placeholder attached to it turns it into the
default of a parameter. -/
def literal (l : Literal) : Parse Expr := do
  advance
  match ← kind with
  | .param p =>
    if p.attached then
      advance
      return .param { key := p.key, default := some l, nullBound := false }
    else return .literal l
  | _ => return .literal l

/-- The argument of a type. -/
def typeArgument : Parse UInt32 := do
  match ← kind with
  | .integer n =>
    if fitsUnsigned 32 n.toInt then
      advance
      return UInt32.ofNat n.toInt.toNat
    else failWith .typeArgument
  | _ => fail "type length"

/-- The second word of a type name of two words. -/
def secondTypeWord : Parse (Option String) := do
  match ← kind with
  | .identifier text =>
    if text.toUpper == "PRECISION" || text.toUpper == "VARYING" then
      advance
      return some text
    else return none
  | _ => return none

/-- The first word of a type name: a name or any keyword. -/
def firstTypeWord : Parse String := do
  let t ← current
  match t.kind with
  | .identifier _ | .keyword _ => advance; return t.text
  | _ => fail "data type"

/-- A type with its arguments. -/
def dataType : Parse DataType := do
  let first ← firstTypeWord
  let name := match ← secondTypeWord with
    | some second => first ++ " " ++ second
    | none => first
  if ← isAt (.punct .leftParen) then return .ofParts name (← parenthesized (commaSep typeArgument))
  else return .ofParts name []

/-- Expressions with commas between them. -/
def expressions (r : Nested) : Parse (List Expr) := commaSep (r.expr 0)

/-- The arguments of a function, with their parentheses. -/
def call (r : Nested) (name : String) : Parse Expr := parenthesized do
  let distinct ← acceptWord .DISTINCT
  unless distinct do let _ ← acceptWord .ALL
  if ← isAt (.punct .rightParen) then return .call name distinct []
  else return .call name distinct (← expressions r)

/-- A name with its qualifiers, the parts read so far being given: a column, all columns of a table,
or a call. -/
def nameFrom (r : Nested) : Nat → List String → Parse Expr
  | 0, parts => return .name ⟨parts⟩
  | fuel + 1, parts => do
    if ← acceptSign .dot then
      if ← acceptSign .star then return .wildcard (some (String.intercalate "." parts))
      else nameFrom r fuel (parts ++ [← memberName])
    else if ← isAt (.punct .leftParen) then call r (String.intercalate "." parts)
    else return .name ⟨parts⟩

/-- A column, all columns of a table, or a call. -/
def nameExpr (r : Nested) : Parse Expr := do
  let first ← name "identifier"
  nameFrom r ((← get).following.length + 1) [first]

/-- CAST, its keyword being the current token. -/
def castCall (r : Nested) : Parse Expr := do
  word .CAST
  parenthesized do
    let e ← r.expr 0
    word .AS
    return .cast e (← dataType)

/-- A WHEN and its THEN, if one stands here. -/
def caseArm (r : Nested) : Parse (Option (Expr × Expr)) := afterWord .WHEN do
  let condition ← r.expr 0
  word .THEN
  return (condition, ← r.expr 0)

/-- The value that CASE compares, unless WHEN stands here. -/
def caseBase (r : Nested) : Parse (Option Expr) := do
  if ← isAt (.keyword .WHEN) then return none else some <$> r.expr 0

/-- One more arm of CASE, if one stands here. -/
def armStep (r : Nested) (arms : List (Expr × Expr)) : Parse (Option (List (Expr × Expr))) := do
  match ← caseArm r with
  | some arm => return some (arms ++ [arm])
  | none => return none

/-- CASE, its keyword being the current token. -/
def caseExpr (r : Nested) : Parse Expr := do
  word .CASE
  let base ← caseBase r
  let arms ← repeatStep (armStep r) []
  if arms.isEmpty then fail "WHEN"
  let otherwise ← afterWord .ELSE (r.expr 0)
  word .END
  return .cases base arms otherwise

/-- EXISTS, behind its keyword: a call whose argument is a query. -/
def existsCall (r : Nested) : Parse Expr := do
  return .call "EXISTS" false [.subquery (← parenthesized r.query)]

/-- An expression or query behind an opening parenthesis. -/
def grouped (r : Nested) : Parse Expr := do
  if ← isAt (.keyword .SELECT) then
    let q ← r.query
    sign .rightParen
    return .subquery q
  else
    let e ← r.expr 0
    sign .rightParen
    return e

/-- The type that a keyword in front of a string casts it to. -/
def typedLiteral? : Keyword → Option DataType
  | .DATE => some .date
  | .TIME => some .time
  | .TIMESTAMP => some .timestamp
  | _ => none

/-- An expression that begins with a keyword and is no literal. -/
def keywordExpr (r : Nested) (k : Keyword) : Parse Expr := do
  let behind ← nextKind
  match k, typedLiteral? k, behind with
  | .LEFT, _, .punct .leftParen | .RIGHT, _, .punct .leftParen =>
    let t ← current
    advance
    call r t.text
  | _, some type, .string s =>
    advance
    return .cast (← literal (.string s)) type
  | .DEFAULT, _, _ => advance; return .literal .columnDefault
  | .CASE, _, _ => caseExpr r
  | .CAST, _, _ => castCall r
  | .EXISTS, _, _ => advance; existsCall r
  | k, _, _ => if k.isReserved then fail "expression" else nameExpr r

/-- An expression without operators around it. -/
def primary (r : Nested) : Parse Expr := do
  let k ← kind
  match literal? k with
  | some l => literal l
  | none =>
    match k with
    | .param p => advance; return .param (.ofKey p.key)
    | .hostParam name => advance; return .param (.ofKey (.named name))
    | .punct .star => advance; return .wildcard none
    | .punct .leftParen => advance; grouped r
    | .identifier _ => nameExpr r
    | .keyword word => keywordExpr r word
    | _ => fail "expression"

/-- An operand with the NOT or sign in front of it. -/
def operand (r : Nested) : Parse Expr := do
  match ← kind with
  | .keyword .NOT => advance; return .operation .not [← r.expr notPower]
  | .punct .minus => advance; return .operation .minus [← r.expr signPower]
  | .punct .bitNot => advance; return .operation .bitNot [← r.expr signPower]
  | .punct .plus => advance; r.expr signPower
  | _ => primary r

/-- Two operands under an operator. An operator that flattens takes up the operands of a left side
that has the same operator. -/
def combine (op : Operator) (lhs rhs : Expr) : Expr :=
  match lhs with
  | .operation op' operands =>
    if op.flattens && op' = op then .operation op (operands ++ [rhs]) else .operation op [lhs, rhs]
  | _ => .operation op [lhs, rhs]

/-- The list or query behind IN. -/
def inList (r : Nested) (op : Operator) (lhs : Expr) : Parse Expr := parenthesized do
  if ← isAt (.keyword .SELECT) then return .operation op [lhs, .subquery (← r.query)]
  else return .operation op (lhs :: (← expressions r))

/-- The bounds behind BETWEEN. -/
def betweenBounds (r : Nested) (lhs : Expr) : Parse Expr := do
  let low ← r.expr Infix.between.right
  word .AND
  return .operation .between [lhs, low, ← r.expr Infix.between.right]

/-- The pattern behind SIMILAR. -/
def similarPattern (r : Nested) (lhs : Expr) : Parse Expr := do
  word .TO
  return .operation .similar [lhs, ← r.expr Infix.similar.right]

/-- What stands behind an infix NOT. -/
def negatedTail (r : Nested) (lhs : Expr) : Parse Expr := do
  match ← kind with
  | .keyword .IN => advance; inList r .notIn lhs
  | .keyword .LIKE => advance; return .operation .notLike [lhs, ← r.expr Infix.negated.right]
  | .keyword .ILIKE => advance; return .operation .notIlike [lhs, ← r.expr Infix.negated.right]
  | .keyword .BETWEEN => advance; return .operation .not [← betweenBounds r lhs]
  | .keyword .SIMILAR => advance; return .operation .not [← similarPattern r lhs]
  | .keyword .NULL => advance; return .operation .isNotNull [lhs]
  | _ => fail "IN, LIKE, ILIKE, BETWEEN or SIMILAR after NOT"

/-- What stands behind IS. -/
def isTail (r : Nested) (lhs : Expr) : Parse Expr := do
  let negated ← acceptWord .NOT
  if ← acceptWord .NULL then
    return .operation (if negated then .isNotNull else .isNull) [lhs]
  else
    let test := Expr.operation .is [lhs, ← r.expr Infix.is.right]
    return if negated then .operation .not [test] else test

/-- What stands behind the first token of an infix form. -/
def infixTail (r : Nested) (lhs : Expr) : Infix → Parse Expr
  | .cast => do return .cast lhs (← dataType)
  | .isNull => return .operation .isNull [lhs]
  | .isNotNull => return .operation .isNotNull [lhs]
  | .is => isTail r lhs
  | .negated => negatedTail r lhs
  | .isIn => inList r .isIn lhs
  | .between => betweenBounds r lhs
  | .similar => similarPattern r lhs
  | .binary op => do return combine op lhs (← r.expr (Infix.binary op).right)

/-- Takes up the infix form that stands behind an operand, if it binds tightly enough. -/
def infixStep (r : Nested) (least : Nat) (lhs : Expr) : Parse (Option Expr) := do
  match Infix.ofToken? (← kind) with
  | none => return none
  | some form =>
    if form.left < least then return none
    else
      advance
      some <$> infixTail r lhs form

/-- An expression whose operators bind at least this tightly. -/
def expressionBody (r : Nested) (least : Nat) : Parse Expr := do
  repeatStep (infixStep r least) (← operand r)

end BoundSql.Grammar
