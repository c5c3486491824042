import BoundSql.Grammar.Expression

/-!
# The grammar of queries

A query is a chain of SELECTs and parenthesized queries under set operators, with bounding clauses
behind it. `expression` and `query` close the recursion between expressions and queries: each level
of nesting uses up one of the levels allowed.
-/

namespace BoundSql.Grammar

open Parse

/-- A name for a column or target: behind AS any name or string, else a name that is not
reserved. -/
def label : Parse (Option String) := do
  if ← acceptWord .AS then
    match ← kind with
    | .string text => advance; return some text
    | _ => some <$> name "alias"
  else
    match ← kind with
    | .identifier _ => some <$> name "alias"
    | .keyword k => if k.isReserved then return none else some <$> name "alias"
    | _ => return none

/-- A result column; all columns of a table have no name of their own. -/
def column (r : Nested) : Parse Column := do
  let expr ← r.expr 0
  if expr.isWildcard then return { expr, label := none } else return { expr, label := ← label }

/-- A table or a query in parentheses, and its name. -/
def target (r : Nested) : Parse Target := do
  let rows ←
    if ← isAt (.punct .leftParen) then .subquery <$> parenthesized r.query
    else .table <$> qualifiedName "table name"
  return { rows, label := ← label }

/-- The keywords between NATURAL and JOIN say nothing. -/
def naturalWords : Parse Unit := do
  match ← kind with
  | .keyword .INNER | .keyword .LEFT | .keyword .RIGHT | .keyword .FULL => advance
  | _ => pure ()
  let _ ← acceptWord .OUTER

/-- What joins the next target: a comma, or keywords up to JOIN. -/
def joinKind : Parse (Option JoinKind) := do
  match ← kind with
  | .punct .comma => advance; return some .cross
  | .keyword .JOIN => advance; return some .inner
  | .keyword .NATURAL => advance; naturalWords; word .JOIN; return some .natural
  | .keyword .CROSS => advance; word .JOIN; return some .cross
  | .keyword .INNER => advance; word .JOIN; return some .inner
  | .keyword .LEFT => outer .left
  | .keyword .RIGHT => outer .right
  | .keyword .FULL => outer .full
  | _ => return none
where
  /-- The rest of an outer join. -/
  outer (k : JoinKind) : Parse (Option JoinKind) := do
    advance
    let _ ← acceptWord .OUTER
    word .JOIN
    return some k

/-- The condition of a join; cross and natural joins have none. -/
def joinCondition (r : Nested) (k : JoinKind) : Parse JoinCondition := do
  if k = .cross || k = .natural then return .none
  else if ← acceptWord .ON then return .predicate (← r.expr 0)
  else if ← acceptWord .USING then return .columns (← parenthesized columnNames)
  else return .none

/-- One more target of FROM, if something joins it. -/
def joinStep (r : Nested) (c : FromClause) : Parse (Option FromClause) := do
  match ← joinKind with
  | none => return none
  | some kind =>
    let t ← target r
    let condition ← joinCondition r kind
    return some
      { targets := c.targets ++ [t]
        joins := c.joins ++ [{ kind, position := c.targets.length, condition }] }

/-- The targets behind FROM. -/
def fromClause (r : Nested) : Parse FromClause := do
  let first ← target r
  repeatStep (joinStep r) { targets := [first], joins := [] }

/-- DISTINCT, with the expression of DISTINCT ON, or ALL. -/
def distinctClause (r : Nested) : Parse (Bool × Option Expr) := do
  if ← acceptWord .DISTINCT then
    return (true, ← afterWord .ON (parenthesized (r.expr 0)))
  else
    let _ ← acceptWord .ALL
    return (false, none)

/-- WHERE and its condition, if it stands here. -/
def whereClause (r : Nested) : Parse (Option Expr) := afterWord .WHERE (r.expr 0)

/-- A SELECT up to its bounding clauses. -/
def selectCore (r : Nested) : Parse Select := do
  word .SELECT
  let (distinct, distinctOn) ← distinctClause r
  let columns ← commaSep (column r)
  let source ← afterWord .FROM (fromClause r)
  let condition ← whereClause r
  let groupBy ← afterWord .GROUP (do word .BY; expressions r)
  let having ← afterWord .HAVING (r.expr 0)
  return { distinct, distinctOn, columns, source, condition, groupBy := groupBy.getD [], having
           orderBy := [], limit := none, offset := none }

/-- The collation of a sort key. -/
def collation : Parse String := do
  match ← kind with
  | .string text => advance; return text
  | _ => name "collation name"

/-- DESC or ASC. -/
def sortOrder : Parse SortOrder := do
  if ← acceptWord .DESC then return .desc
  else
    let _ ← acceptWord .ASC
    return .asc

/-- One key of a sort. -/
def orderItem (r : Nested) : Parse OrderItem := do
  let expr ← r.expr 0
  let collation ← afterWord .COLLATE collation
  return { expr, collation, order := ← sortOrder }

/-- The clauses that bound the rows of a query. -/
structure Bounds where
  orderBy : List OrderItem
  limit : Option Expr
  offset : Option Expr

/-- LIMIT, with the offset in front of a comma if it is written that way. -/
def limitClause (r : Nested) : Parse (Option Expr × Option Expr) := do
  if ← acceptWord .LIMIT then
    let first ← r.expr 0
    if ← acceptSign .comma then return (some (← r.expr 0), some first) else return (some first, none)
  else return (none, none)

/-- ORDER BY, LIMIT and OFFSET. -/
def bounds (r : Nested) : Parse Bounds := do
  let orderBy ← afterWord .ORDER (do word .BY; commaSep (orderItem r))
  let (limit, offset) ← limitClause r
  let offset ← if offset.isNone then afterWord .OFFSET (r.expr 0) else pure offset
  return { orderBy := orderBy.getD [], limit, offset }

/-- The query with these bounding clauses in place of its own. -/
def withBounds (b : Bounds) : Query → Query
  | .select s => .select { s with orderBy := b.orderBy, limit := b.limit, offset := b.offset }
  | .compound c => .compound { c with orderBy := b.orderBy, limit := b.limit, offset := b.offset }

/-- A SELECT without bounding clauses, or a query in parentheses. -/
def queryTerm (r : Nested) : Parse Query := do
  if ← isAt (.punct .leftParen) then parenthesized r.query else .select <$> selectCore r

/-- A set operator: behind the keyword, ALL keeps duplicates and DISTINCT says nothing. -/
def setOp : Parse (Option SetOp) := do
  match ← kind with
  | .keyword .UNION => some <$> variant .union .unionAll
  | .keyword .INTERSECT => some <$> variant .intersect .intersectAll
  | .keyword .EXCEPT => some <$> variant .except .exceptAll
  | _ => return none
where
  /-- The rest of the operator. -/
  variant (plain all : SetOp) : Parse SetOp := do
    advance
    if ← acceptWord .ALL then return all
    else
      let _ ← acceptWord .DISTINCT
      return plain

/-- One more branch of a chain. A change of operator makes all branches so far the first branch of a
new chain. -/
def addBranch (chain : Compound) (op : SetOp) (q : Query) : Compound :=
  if chain.branches.length ≤ 1 || chain.op = op then
    { chain with op, branches := chain.branches ++ [q] }
  else .ofBranches op [.compound chain, q]

/-- Takes up one more branch, if a set operator stands here. -/
def branchStep (r : Nested) (chain : Compound) : Parse (Option Compound) := do
  match ← setOp with
  | none => return none
  | some op => return some (addBranch chain op (← queryTerm r))

/-- A query. A query in parentheses that has bounding clauses takes no further ones. -/
def queryBody (r : Nested) : Parse Query := do
  let first ← queryTerm r
  let chain ← repeatStep (branchStep r) (.ofBranches .union [first])
  let q := chain.reduce
  if q.isBounded then return q else return withBounds (← bounds r) q

mutual

/-- An expression whose operators bind at least this tightly, `levels` levels of nesting being left
of `limit`. -/
def expression (limit : Nat) : (levels : Nat) → (least : Nat) → Parse Expr
  | 0, _ => failWith (.tooDeep limit)
  | levels + 1, least => expressionBody ⟨expression limit levels, query limit levels⟩ least

/-- A query, `levels` levels of nesting being left of `limit`. -/
def query (limit : Nat) : (levels : Nat) → Parse Query
  | 0 => failWith (.tooDeep limit)
  | levels + 1 => queryBody ⟨expression limit levels, query limit levels⟩

end

/-- Expressions and queries that may nest `limit` levels deep. -/
def nested (limit : Nat) : Nested := ⟨expression limit limit, query limit limit⟩

end BoundSql.Grammar
