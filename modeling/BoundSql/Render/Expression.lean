import BoundSql.Render.Param
import BoundSql.Tree.Expr

/-!
# Writing expressions and queries

An operand stands in parentheses if it binds less tightly than its operator, so that reading the
text gives the operands back. What the dialect does not have is an error.
-/

namespace BoundSql

open Phrase

/-- How an operator stands to its operands. -/
inductive OperatorShape
  /-- A word in front. -/
  | prefixWord
  /-- A sign in front. -/
  | prefixSign
  /-- A minus in front of one operand, between two. -/
  | minus
  /-- Words behind. -/
  | postfixWords
  /-- A list in parentheses behind. -/
  | membership
  /-- Two bounds behind. -/
  | range
  /-- Between operands. -/
  | between
  deriving DecidableEq, Repr

namespace Operator

/-- How the operator stands to its operands. -/
def shape : Operator → OperatorShape
  | not => .prefixWord
  | bitNot => .prefixSign
  | minus => .minus
  | isNull | isNotNull => .postfixWords
  | isIn | notIn => .membership
  | between => .range
  | _ => .between

/-- The mark of the operator. -/
def mark (op : Operator) : Mark := .text op.sql

end Operator

namespace Expr

/-- Whether an operand of `parent` stands in parentheses. `right` says that it is not the first
one. -/
def needsParens (parent : Operator) (right : Bool) : Expr → Bool
  | operation op operands =>
    !(op == .minus && operands.length == 1) &&
      (op.precedence < parent.precedence ||
        (right && op.precedence == parent.precedence && !(op == parent && parent.flattens)))
  | _ => false

/-- An operand of `parent`, given its phrase. -/
def asOperand (parent : Operator) (right : Bool) (e : Expr) (p : Phrase) : Phrase :=
  if e.needsParens parent right then parens p else p

end Expr

namespace Query

/-- Whether the branch at index `n` of a compound stands in parentheses. -/
def needsParens (op : SetOp) (n : Nat) : Query → Bool
  | select s => s.isBounded
  | compound c => 0 < n || c.op != op || c.isBounded

end Query

namespace RenderContext

/-- Fails if the dialect does not have the operator. -/
def checkOperator (r : RenderContext) (op : Operator) : Except SqlError Unit :=
  if op.isIlike && !r.dialect.ilike then r.unsupported "ILIKE"
  else if op.isRegexp && !r.dialect.regexpOperators then
    r.unsupported ("regular expression operator " ++ op.sql)
  else .ok ()

/-- Fails if the dialect does not have the set operator. -/
def checkSetOp (r : RenderContext) (op : SetOp) : Except SqlError Unit :=
  if (op == .intersectAll || op == .exceptAll) && !r.dialect.setOpAll then r.unsupported op.sql
  else .ok ()

/-- Fails if the dialect does not have DISTINCT ON, should it stand there. -/
def checkDistinctOn (r : RenderContext) (stands : Bool) : Except SqlError Unit :=
  if stands && !r.dialect.distinctOn then r.unsupported "DISTINCT ON" else .ok ()

/-- Fails if the dialect does not have the join. -/
def checkJoin (r : RenderContext) (kind : JoinKind) : Except SqlError Unit :=
  if (kind == .full || kind == .right) && !r.dialect.fullJoin then r.unsupported kind.sql
  else .ok ()

/-- The branch at index `n` of a compound, given its phrase. Set operators apply from left to right,
so that the first branch can go without parentheses unless it is bounded. -/
def branch (r : RenderContext) (op : SetOp) (n : Nat) (q : Query) (p : Phrase) :
    Except SqlError Phrase :=
  if !q.needsParens op n then .ok p
  else if r.dialect.parenthesizedBranches then .ok (parens p)
  else if n == 0 && !q.isBounded then .ok p
  else r.unsupported "Parenthesized compound branch"

/-- An operand in front of an infix operator and the operands behind it. -/
def chain (op : Operator) (first : Phrase) (others : List Phrase) : Phrase :=
  sepBy [.blank, op.mark, .blank] (first :: others)

/-- A negated operand. Two minus signs in a row would open a comment. -/
def negated (p : Phrase) : Phrase :=
  .text "-" :: if opensWithMinus p then parens p else p

/-- The words that OFFSET without LIMIT needs in front. -/
def unlimited (d : Dialect) : List String :=
  match d with
  | .sqlite => ["LIMIT", "-1"]
  | .mysql => ["LIMIT", "18446744073709551615"]
  | _ => []

/-- The clauses that bound the number of rows. -/
def bounds (r : RenderContext) (limit offset : Option Phrase) : Phrase :=
  if r.dialect.limitOffset then
    match limit, offset with
    | some n, some m => clause ["LIMIT"] n ++ [.blank, .text "OFFSET", .blank] ++ m
    | some n, none => clause ["LIMIT"] n
    | none, some m => clause (unlimited r.dialect ++ ["OFFSET"]) m
    | none, none => []
  else
    (match offset with
      | some m => clause ["OFFSET"] m ++ [.blank, .text "ROWS"]
      | none => []) ++
    (match limit with
      | some n => clause ["FETCH", "NEXT"] n ++ [.blank, .text "ROWS", .blank, .text "ONLY"]
      | none => [])

/-- A name behind AS. -/
def labelled (r : RenderContext) (p : Phrase) : Option String → Phrase
  | none => p
  | some label => p ++ [.blank, .text "AS", .blank, r.name label]

/-- A target of FROM with its name. Oracle has no AS there. -/
def labelledTarget (r : RenderContext) (p : Phrase) : Option String → Phrase
  | none => p
  | some label =>
    if r.dialect == .oracle then p ++ [.blank, r.name label] else r.labelled p (some label)

/-- What stands behind SELECT in front of the columns. -/
def distinctHead (distinct : Bool) : Option Phrase → Phrase
  | none => if distinct then [.text "DISTINCT", .blank] else []
  | some p => words ["DISTINCT", "ON"] ++ .blank :: parens p ++ [.blank]

/-- A phrase with words in front, if there is one. -/
def after (front : Phrase) : Option Phrase → Phrase
  | none => []
  | some p => front ++ p

/-- A clause that may be missing. -/
def clauseOf (ws : List String) : Option Phrase → Phrase
  | none => []
  | some p => clause ws p

/-- A sort key. -/
def sortKey (p : Phrase) (order : SortOrder) (collation : Option String) : Phrase :=
  p ++
    (match collation with | none => [] | some c => [.blank, .text "COLLATE", .blank, .text c]) ++
    (match order with | .asc => [] | .desc => [.blank, .text "DESC"])

/-- The clause with the given items, unless there are none. -/
def listClause (ws : List String) (items : List Phrase) : Phrase :=
  if items.isEmpty then [] else clause ws (commas items)

/-- A join as it is written: where it stands, its kind and its condition. -/
structure JoinParts where
  position : Nat
  kind : JoinKind
  condition : Render Phrase

/-- The targets of FROM from index `position` on, each with the first join at its index. -/
def joinTargets (r : RenderContext) (joins : List JoinParts) (position : Nat) :
    List (Render Phrase) → Render Phrase
  | [] => return []
  | target :: targets => do
    let p ← target
    let p ←
      if position == 0 then pure p
      else match joins.find? (·.position == position) with
        | none => pure ([.text ",", .blank] ++ p)
        | some j => do
          r.checkJoin j.kind
          pure (clause [j.kind.name, "JOIN"] p ++ (← j.condition))
    return p ++ (← r.joinTargets joins (position + 1) targets)

end RenderContext

open RenderContext

mutual

/-- Writes an expression. -/
def Expr.render (r : RenderContext) : Expr → Render Phrase
  | .literal l => return [.text (l.sql r.dialect)]
  | .name i => return r.qualified i
  | .wildcard none => return [.text "*"]
  | .wildcard (some table) =>
    return r.dotted ((Text.splitAt '.' table.toList).map String.ofList) ++ [.text ".", .text "*"]
  | .param p => r.param p
  | .call function distinct args => do
    match args with
    | [.subquery q] =>
      if Text.sameWord function.toList "EXISTS".toList then
        return [.text "EXISTS", .blank] ++ parens (← q.render r)
      else
        let p ← q.render r
        return .text function ::
          parens ((if distinct then [.text "DISTINCT", .blank] else []) ++ parens p)
    | args =>
      let ps ← Expr.renderAll r args
      return .text function ::
        parens ((if distinct then [.text "DISTINCT", .blank] else []) ++ commas ps)
  | .operation op operands => do
    r.checkOperator op
    match op.shape, operands with
    | .prefixWord, [e] => return [op.mark, .blank] ++ e.asOperand op true (← e.render r)
    | .prefixSign, [e] => return op.mark :: e.asOperand op true (← e.render r)
    | .minus, [e] => return negated (e.asOperand .bitNot true (← e.render r))
    | .postfixWords, [e] => return e.asOperand op false (← e.render r) ++ [.blank, op.mark]
    | .membership, e :: list => do
      let p ← e.render r
      let items ← match list with
        | [.subquery q] => q.render r
        | list => commas <$> Expr.renderAll r list
      return e.asOperand op false p ++ [.blank, op.mark, .blank] ++ parens items
    | .range, [e, low, high] => do
      let p ← e.render r
      let lowest ← low.render r
      let highest ← high.render r
      return e.asOperand op false p ++ [.blank, op.mark, .blank] ++ low.asOperand op true lowest ++
        [.blank, .text "AND", .blank] ++ high.asOperand op true highest
    | _, first :: second :: others => do
      let p ← first.render r
      let q ← second.render r
      let ps ← Expr.renderOperands r op others
      return chain op (first.asOperand op false p) (second.asOperand op true q :: ps)
    | _, operands => throw (.render (.operandCount op operands.length))
  | .subquery q => do return parens (← q.render r)
  | .cases base arms otherwise => do
    let base ← Expr.renderOption r base
    let arms ← Expr.renderArms r arms
    let otherwise ← Expr.renderOption r otherwise
    return .text "CASE" :: after [.blank] base ++ arms ++ after [.blank, .text "ELSE", .blank] otherwise ++
      [.blank, .text "END"]
  | .cast e type => do
    return .text "CAST" ::
      parens ((← e.render r) ++ [.blank, .text "AS", .blank, .text type.sql])

/-- Writes an expression that may be missing. -/
def Expr.renderOption (r : RenderContext) : Option Expr → Render (Option Phrase)
  | none => return none
  | some e => do return some (← e.render r)

/-- Writes expressions in a row. -/
def Expr.renderAll (r : RenderContext) : List Expr → Render (List Phrase)
  | [] => return []
  | e :: es => do
    let p ← e.render r
    return p :: (← Expr.renderAll r es)

/-- Writes operands behind the first. -/
def Expr.renderOperands (r : RenderContext) (op : Operator) : List Expr → Render (List Phrase)
  | [] => return []
  | e :: es => do
    let p ← e.render r
    return e.asOperand op true p :: (← Expr.renderOperands r op es)

/-- Writes the conditions and results of CASE. -/
def Expr.renderArms (r : RenderContext) : List (Expr × Expr) → Render Phrase
  | [] => return []
  | (w, t) :: arms => do
    let w ← w.render r
    let t ← t.render r
    return [.blank, .text "WHEN", .blank] ++ w ++ [.blank, .text "THEN", .blank] ++ t ++
      (← Expr.renderArms r arms)

/-- Writes a query. -/
def Query.render (r : RenderContext) : Query → Render Phrase
  | .select s => s.render r
  | .compound c => c.render r

/-- Writes a SELECT. -/
def Select.render (r : RenderContext) : Select → Render Phrase
  | ⟨distinct, distinctOn, columns, source, condition, groupBy, having, orderBy, limit, offset⟩ => do
    r.checkDistinctOn distinctOn.isSome
    let distinctOn ← Expr.renderOption r distinctOn
    let columns ← Column.renderAll r columns
    let source ← FromClause.renderOption r source
    let condition ← Expr.renderOption r condition
    let groupBy ← Expr.renderAll r groupBy
    let having ← Expr.renderOption r having
    let orderBy ← OrderItem.renderAll r orderBy
    let limit ← Expr.renderOption r limit
    let offset ← Expr.renderOption r offset
    return [.text "SELECT", .blank] ++ distinctHead distinct distinctOn ++ commas columns ++
      clauseOf ["FROM"] source ++ clauseOf ["WHERE"] condition ++
      listClause ["GROUP", "BY"] groupBy ++ clauseOf ["HAVING"] having ++
      listClause ["ORDER", "BY"] orderBy ++ r.bounds limit offset

/-- Writes a compound. -/
def Compound.render (r : RenderContext) : Compound → Render Phrase
  | ⟨op, branches, orderBy, limit, offset⟩ => do
    r.checkSetOp op
    let branches ← Query.renderBranches r op 0 branches
    let orderBy ← OrderItem.renderAll r orderBy
    let limit ← Expr.renderOption r limit
    let offset ← Expr.renderOption r offset
    return sepBy [.clause, .text op.sql, .clause] branches ++
      listClause ["ORDER", "BY"] orderBy ++ r.bounds limit offset

/-- Writes the branches of a compound from index `n` on. -/
def Query.renderBranches (r : RenderContext) (op : SetOp) (n : Nat) :
    List Query → Render (List Phrase)
  | [] => return []
  | q :: qs => do
    let p ← r.branch op n q (← q.render r)
    return p :: (← Query.renderBranches r op (n + 1) qs)

/-- Writes result columns. -/
def Column.renderAll (r : RenderContext) : List Column → Render (List Phrase)
  | [] => return []
  | ⟨e, label⟩ :: cs => do
    let p ← e.render r
    return r.labelled p label :: (← Column.renderAll r cs)

/-- Writes sort keys. -/
def OrderItem.renderAll (r : RenderContext) : List OrderItem → Render (List Phrase)
  | [] => return []
  | ⟨e, order, collation⟩ :: os => do
    let p ← e.render r
    return sortKey p order collation :: (← OrderItem.renderAll r os)

/-- Writes a FROM that may be missing. -/
def FromClause.renderOption (r : RenderContext) : Option FromClause → Render (Option Phrase)
  | none => return none
  | some f => do return some (← f.render r)

/-- Writes a FROM. -/
def FromClause.render (r : RenderContext) : FromClause → Render Phrase
  | ⟨targets, joins⟩ => r.joinTargets (Join.parts r joins) 0 (Target.parts r targets)

/-- How the targets of FROM are written. -/
def Target.parts (r : RenderContext) : List Target → List (Render Phrase)
  | [] => []
  | ⟨.table i, label⟩ :: ts =>
    (return r.labelledTarget (r.qualified i) label) :: Target.parts r ts
  | ⟨.subquery q, label⟩ :: ts =>
    (do return r.labelledTarget (parens (← q.render r)) label) :: Target.parts r ts

/-- How joins are written. -/
def Join.parts (r : RenderContext) : List Join → List JoinParts
  | [] => []
  | ⟨kind, position, .none⟩ :: js => ⟨position, kind, pure []⟩ :: Join.parts r js
  | ⟨kind, position, .predicate e⟩ :: js =>
    ⟨position, kind, do return [.blank, .text "ON", .blank] ++ (← e.render r)⟩ :: Join.parts r js
  | ⟨kind, position, .columns names⟩ :: js =>
    ⟨position, kind, pure ([.blank, .text "USING", .blank] ++
      parens (commas (names.map fun n => [r.name n])))⟩ :: Join.parts r js

end

end BoundSql
