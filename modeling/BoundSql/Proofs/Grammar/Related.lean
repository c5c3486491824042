import BoundSql.Proofs.Grammar.Congruence

/-!
# Related ways of reading

If two ways of reading the expressions and queries one level deeper are related by a congruence, so
are the ways of reading all that is built from them: `rel_statement`.
-/

namespace BoundSql.Grammar

open Parse Congruence

variable {R : Congruence} {r r' : Nested}

/-- Expressions and queries one level deeper are read in related ways. -/
structure Nested.Related (R : Congruence) (r r' : Nested) : Prop where
  expr : ∀ least, R.Rel (r.expr least) (r'.expr least)
  query : R.Rel r.query r'.query

/-! ## Expressions -/

theorem rel_literal (l : Literal) : R.Rel (literal l) (literal l) := by
  refine R.advance.bind fun _ => R.kind.bind fun k => ?_
  split
  · split
    · exact R.advance.bind fun _ => rel_pure _
    · exact rel_pure _
  · exact rel_pure _

theorem rel_typeArgument : R.Rel typeArgument typeArgument := by
  refine R.kind.bind fun k => ?_
  split
  · split
    · exact R.advance.bind fun _ => rel_pure _
    · exact R.failWith _
  · exact rel_fail _

theorem rel_secondTypeWord : R.Rel secondTypeWord secondTypeWord := by
  refine R.kind.bind fun k => ?_
  split
  · split
    · exact R.advance.bind fun _ => rel_pure _
    · exact rel_pure none
  · exact rel_pure none

theorem rel_firstTypeWord : R.Rel firstTypeWord firstTypeWord := by
  refine R.current (fun t t' kind lexeme => ?_) fun t => ?_
  · simp only [Token.text, kind, lexeme]
  · split
    · exact R.advance.bind fun _ => rel_pure _
    · exact R.advance.bind fun _ => rel_pure _
    · exact rel_fail _

theorem rel_dataType : R.Rel dataType dataType := by
  refine rel_firstTypeWord.bind fun first => rel_secondTypeWord.bind fun second => ?_
  refine (rel_isAt _).bind fun opened => ?_
  split
  · exact (rel_parenthesized (rel_commaSep rel_typeArgument)).bind fun _ => rel_pure _
  · exact rel_pure _

section Nested

variable (hr : Nested.Related R r r')

include hr

theorem rel_expressions : R.Rel (expressions r) (expressions r') := rel_commaSep (hr.expr 0)

theorem rel_call (name : String) : R.Rel (call r name) (call r' name) := by
  refine rel_parenthesized ((rel_acceptWord .DISTINCT).bind fun distinct => ?_)
  have arguments : R.Rel (do
      if ← isAt (.punct .rightParen) then return Expr.call name distinct []
      else return .call name distinct (← expressions r)) (do
      if ← isAt (.punct .rightParen) then return Expr.call name distinct []
      else return .call name distinct (← expressions r')) := by
    refine (rel_isAt _).bind fun empty => ?_
    split
    · exact rel_pure _
    · exact (rel_expressions hr).bind fun _ => rel_pure _
  split
  · exact arguments
  · exact (rel_acceptWord .ALL).bind fun _ => arguments

theorem rel_nameFrom (fuel : Nat) (parts : List String) :
    R.Rel (nameFrom r fuel parts) (nameFrom r' fuel parts) := by
  induction fuel generalizing parts with
  | zero => exact rel_pure _
  | succ fuel ih =>
    refine (rel_acceptSign .dot).bind fun dot => ?_
    split
    · refine (rel_acceptSign .star).bind fun star => ?_
      split
      · exact rel_pure _
      · exact rel_memberName.bind fun part => ih _
    · refine (rel_isAt _).bind fun opened => ?_
      split
      · exact rel_call hr _
      · exact rel_pure _

theorem rel_nameExpr : R.Rel (nameExpr r) (nameExpr r') := by
  refine (rel_name _).bind fun first => ?_
  apply R.count
  · intro c c' same
    rw [same]
  · intro c
    exact rel_nameFrom hr _ [first]

theorem rel_castCall : R.Rel (castCall r) (castCall r') := by
  refine (rel_word .CAST).bind fun _ => rel_parenthesized ?_
  exact (hr.expr 0).bind fun e => (rel_word .AS).bind fun _ =>
    rel_dataType.bind fun type => rel_pure _

theorem rel_caseArm : R.Rel (caseArm r) (caseArm r') :=
  rel_afterWord .WHEN ((hr.expr 0).bind fun condition => (rel_word .THEN).bind fun _ =>
    (hr.expr 0).bind fun value => rel_pure (condition, value))

theorem rel_caseBase : R.Rel (caseBase r) (caseBase r') := by
  refine (rel_isAt _).bind fun arm => ?_
  split
  · exact rel_pure none
  · exact (hr.expr 0).map

theorem rel_armStep (arms : List (Expr × Expr)) : R.Rel (armStep r arms) (armStep r' arms) := by
  refine (rel_caseArm hr).bind fun arm => ?_
  split
  · exact rel_pure _
  · exact rel_pure none

theorem rel_caseExpr : R.Rel (caseExpr r) (caseExpr r') := by
  refine (rel_word .CASE).bind fun _ => (rel_caseBase hr).bind fun base => ?_
  refine (rel_repeatStep (rel_armStep hr) []).bind fun arms => ?_
  have tail := (rel_afterWord .ELSE (hr.expr 0)).bind fun otherwise =>
    (rel_word .END).bind fun _ => rel_pure (Expr.cases base arms otherwise)
  split
  · exact (rel_fail _).bind fun _ => tail
  · exact tail

theorem rel_existsCall : R.Rel (existsCall r) (existsCall r') :=
  (rel_parenthesized hr.query).bind fun _ => rel_pure _

theorem rel_grouped : R.Rel (grouped r) (grouped r') := by
  refine (rel_isAt _).bind fun select => ?_
  split
  · exact hr.query.bind fun q => (rel_sign .rightParen).bind fun _ => rel_pure _
  · exact (hr.expr 0).bind fun e => (rel_sign .rightParen).bind fun _ => rel_pure e

theorem rel_keywordExpr (k : Keyword) : R.Rel (keywordExpr r k) (keywordExpr r' k) := by
  have functionCall : R.Rel (do let t ← current; advance; call r t.text)
      (do let t ← current; advance; call r' t.text) := by
    apply R.current
    · intro t t' _ lexeme
      simp only [Token.text, lexeme]
    · intro t
      exact R.advance.bind fun _ => rel_call hr _
  refine R.nextKind.bind fun behind => ?_
  split
  · exact functionCall
  · exact functionCall
  · exact R.advance.bind fun _ => (rel_literal _).bind fun _ => rel_pure _
  · exact R.advance.bind fun _ => rel_pure _
  · exact rel_caseExpr hr
  · exact rel_castCall hr
  · exact R.advance.bind fun _ => rel_existsCall hr
  · split
    · exact rel_fail _
    · exact rel_nameExpr hr

theorem rel_primary : R.Rel (primary r) (primary r') := by
  refine R.kind.bind fun k => ?_
  split
  · exact rel_literal _
  · split
    · exact R.advance.bind fun _ => rel_pure _
    · exact R.advance.bind fun _ => rel_pure _
    · exact R.advance.bind fun _ => rel_pure _
    · exact R.advance.bind fun _ => rel_grouped hr
    · exact rel_nameExpr hr
    · exact rel_keywordExpr hr _
    · exact rel_fail _

theorem rel_operand : R.Rel (operand r) (operand r') := by
  have prefixed (op : Operator) (least : Nat) := R.advance.bind fun _ =>
    (hr.expr least).bind fun e => rel_pure (Expr.operation op [e])
  refine R.kind.bind fun k => ?_
  split
  · exact prefixed .not _
  · exact prefixed .minus _
  · exact prefixed .bitNot _
  · exact R.advance.bind fun _ => hr.expr _
  · exact rel_primary hr

theorem rel_inList (op : Operator) (lhs : Expr) : R.Rel (inList r op lhs) (inList r' op lhs) := by
  refine rel_parenthesized ((rel_isAt _).bind fun select => ?_)
  split
  · exact hr.query.bind fun _ => rel_pure _
  · exact (rel_expressions hr).bind fun _ => rel_pure _

theorem rel_betweenBounds (lhs : Expr) : R.Rel (betweenBounds r lhs) (betweenBounds r' lhs) :=
  (hr.expr _).bind fun _ => (rel_word .AND).bind fun _ =>
    (hr.expr _).bind fun _ => rel_pure _

theorem rel_similarPattern (lhs : Expr) : R.Rel (similarPattern r lhs) (similarPattern r' lhs) :=
  (rel_word .TO).bind fun _ => (hr.expr _).bind fun _ => rel_pure _

theorem rel_negatedTail (lhs : Expr) : R.Rel (negatedTail r lhs) (negatedTail r' lhs) := by
  refine R.kind.bind fun k => ?_
  split
  · exact R.advance.bind fun _ => rel_inList hr .notIn lhs
  · exact R.advance.bind fun _ => (hr.expr _).bind fun _ => rel_pure _
  · exact R.advance.bind fun _ => (hr.expr _).bind fun _ => rel_pure _
  · exact R.advance.bind fun _ => (rel_betweenBounds hr lhs).bind fun _ => rel_pure _
  · exact R.advance.bind fun _ => (rel_similarPattern hr lhs).bind fun _ => rel_pure _
  · exact R.advance.bind fun _ => rel_pure _
  · exact rel_fail _

theorem rel_isTail (lhs : Expr) : R.Rel (isTail r lhs) (isTail r' lhs) := by
  refine (rel_acceptWord .NOT).bind fun negated => (rel_acceptWord .NULL).bind fun null => ?_
  split
  · exact rel_pure _
  · exact (hr.expr _).bind fun _ => rel_pure _

theorem rel_infixTail (lhs : Expr) (form : Infix) :
    R.Rel (infixTail r lhs form) (infixTail r' lhs form) := by
  cases form with
  | cast => exact rel_dataType.bind fun _ => rel_pure _
  | isNull => exact rel_pure _
  | isNotNull => exact rel_pure _
  | is => exact rel_isTail hr lhs
  | negated => exact rel_negatedTail hr lhs
  | isIn => exact rel_inList hr .isIn lhs
  | between => exact rel_betweenBounds hr lhs
  | similar => exact rel_similarPattern hr lhs
  | binary op => exact (hr.expr _).bind fun _ => rel_pure _

theorem rel_infixStep (least : Nat) (lhs : Expr) :
    R.Rel (infixStep r least lhs) (infixStep r' least lhs) := by
  refine R.kind.bind fun k => ?_
  split
  · exact rel_pure none
  · split
    · exact rel_pure none
    · exact R.advance.bind fun _ => (rel_infixTail hr lhs _).map

theorem rel_expressionBody (least : Nat) :
    R.Rel (expressionBody r least) (expressionBody r' least) :=
  (rel_operand hr).bind fun first => rel_repeatStep (rel_infixStep hr least) first

end Nested

/-! ## Queries -/

theorem rel_label : R.Rel label label := by
  refine (rel_acceptWord .AS).bind fun explicit => ?_
  split
  · refine R.kind.bind fun k => ?_
    split
    · exact R.advance.bind fun _ => rel_pure _
    · exact (rel_name _).map
  · refine R.kind.bind fun k => ?_
    split
    · exact (rel_name _).map
    · split
      · exact rel_pure none
      · exact (rel_name _).map
    · exact rel_pure none

theorem rel_naturalWords : R.Rel naturalWords naturalWords := by
  have tail := (rel_acceptWord (R := R) .OUTER).bind fun _ => rel_pure ()
  refine R.kind.bind fun k => ?_
  split
  · exact R.advance.bind fun _ => tail
  · exact R.advance.bind fun _ => tail
  · exact R.advance.bind fun _ => tail
  · exact R.advance.bind fun _ => tail
  · exact (rel_pure ()).bind fun _ => tail

theorem rel_joinKind : R.Rel joinKind joinKind := by
  have plain (kind : JoinKind) :=
    R.advance.bind fun _ => (rel_word .JOIN).bind fun _ => rel_pure (some kind)
  have outer (kind : JoinKind) : R.Rel (joinKind.outer kind) (joinKind.outer kind) :=
    R.advance.bind fun _ => (rel_acceptWord .OUTER).bind fun _ =>
      (rel_word .JOIN).bind fun _ => rel_pure (some kind)
  refine R.kind.bind fun k => ?_
  split
  · exact R.advance.bind fun _ => rel_pure _
  · exact R.advance.bind fun _ => rel_pure _
  · exact R.advance.bind fun _ => rel_naturalWords.bind fun _ =>
      (rel_word .JOIN).bind fun _ => rel_pure _
  · exact plain .cross
  · exact plain .inner
  · exact outer .left
  · exact outer .right
  · exact outer .full
  · exact rel_pure none

theorem rel_setOp : R.Rel setOp setOp := by
  have variant (plain all : SetOp) :
      R.Rel (some <$> setOp.variant plain all) (some <$> setOp.variant plain all) := by
    refine (R.advance.bind fun _ => (rel_acceptWord .ALL).bind fun every => ?_).map
    split
    · exact rel_pure all
    · exact (rel_acceptWord .DISTINCT).bind fun _ => rel_pure plain
  refine R.kind.bind fun k => ?_
  split
  · exact variant .union .unionAll
  · exact variant .intersect .intersectAll
  · exact variant .except .exceptAll
  · exact rel_pure none

theorem rel_collation : R.Rel collation collation := by
  refine R.kind.bind fun k => ?_
  split
  · exact R.advance.bind fun _ => rel_pure _
  · exact rel_name _

theorem rel_sortOrder : R.Rel sortOrder sortOrder := by
  refine (rel_acceptWord .DESC).bind fun descending => ?_
  split
  · exact rel_pure _
  · exact (rel_acceptWord .ASC).bind fun _ => rel_pure _

section Nested

variable (hr : Nested.Related R r r')

include hr

theorem rel_column : R.Rel (column r) (column r') := by
  refine (hr.expr 0).bind fun expr => ?_
  split
  · exact rel_pure _
  · exact rel_label.bind fun _ => rel_pure _

theorem rel_target : R.Rel (target r) (target r') := by
  have named (rows : TableSource) :=
    (rel_label (R := R)).bind fun label => rel_pure { rows, label : Target }
  refine (rel_isAt _).bind fun opened => ?_
  split
  · exact (rel_parenthesized hr.query).map.bind named
  · exact (rel_qualifiedName _).map.bind named

theorem rel_joinCondition (k : JoinKind) : R.Rel (joinCondition r k) (joinCondition r' k) := by
  unfold joinCondition
  split
  · exact rel_pure _
  · refine (rel_acceptWord .ON).bind fun on => ?_
    split
    · exact (hr.expr 0).bind fun _ => rel_pure _
    · refine (rel_acceptWord .USING).bind fun «using» => ?_
      split
      · exact (rel_parenthesized rel_columnNames).bind fun _ => rel_pure _
      · exact rel_pure _

theorem rel_joinStep (c : FromClause) : R.Rel (joinStep r c) (joinStep r' c) := by
  refine rel_joinKind.bind fun kind => ?_
  split
  · exact rel_pure none
  · exact (rel_target hr).bind fun _ => (rel_joinCondition hr _).bind fun _ => rel_pure _

theorem rel_fromClause : R.Rel (fromClause r) (fromClause r') :=
  (rel_target hr).bind fun _ => rel_repeatStep (rel_joinStep hr) _

theorem rel_distinctClause : R.Rel (distinctClause r) (distinctClause r') := by
  refine (rel_acceptWord .DISTINCT).bind fun distinct => ?_
  split
  · exact (rel_afterWord .ON (rel_parenthesized (hr.expr 0))).bind fun _ => rel_pure _
  · exact (rel_acceptWord .ALL).bind fun _ => rel_pure _

theorem rel_whereClause : R.Rel (whereClause r) (whereClause r') :=
  rel_afterWord .WHERE (hr.expr 0)

theorem rel_selectCore : R.Rel (selectCore r) (selectCore r') :=
  (rel_word .SELECT).bind fun _ => (rel_distinctClause hr).bind fun _ =>
    (rel_commaSep (rel_column hr)).bind fun _ =>
    (rel_afterWord .FROM (rel_fromClause hr)).bind fun _ =>
    (rel_whereClause hr).bind fun _ =>
    (rel_afterWord .GROUP
      ((rel_word .BY).bind fun _ => rel_expressions hr)).bind fun _ =>
    (rel_afterWord .HAVING (hr.expr 0)).bind fun _ => rel_pure _

theorem rel_orderItem : R.Rel (orderItem r) (orderItem r') :=
  (hr.expr 0).bind fun _ => (rel_afterWord .COLLATE rel_collation).bind fun _ =>
    rel_sortOrder.bind fun _ => rel_pure _

theorem rel_limitClause : R.Rel (limitClause r) (limitClause r') := by
  refine (rel_acceptWord .LIMIT).bind fun limited => ?_
  split
  · refine (hr.expr 0).bind fun first => (rel_acceptSign .comma).bind fun comma => ?_
    split
    · exact (hr.expr 0).bind fun _ => rel_pure _
    · exact rel_pure _
  · exact rel_pure _

theorem rel_bounds : R.Rel (bounds r) (bounds r') := by
  refine (rel_afterWord .ORDER ((rel_word .BY).bind fun _ =>
    rel_commaSep (rel_orderItem hr))).bind fun orderBy => ?_
  refine (rel_limitClause hr).bind fun (limit, offset) => ?_
  dsimp only
  split
  · exact (rel_afterWord .OFFSET (hr.expr 0)).bind fun _ => rel_pure _
  · exact (rel_pure _).bind fun _ => rel_pure _

theorem rel_queryTerm : R.Rel (queryTerm r) (queryTerm r') := by
  refine (rel_isAt _).bind fun opened => ?_
  split
  · exact rel_parenthesized hr.query
  · exact (rel_selectCore hr).map

theorem rel_branchStep (chain : Compound) : R.Rel (branchStep r chain) (branchStep r' chain) := by
  refine rel_setOp.bind fun op => ?_
  split
  · exact rel_pure none
  · exact (rel_queryTerm hr).bind fun _ => rel_pure _

theorem rel_queryBody : R.Rel (queryBody r) (queryBody r') := by
  refine (rel_queryTerm hr).bind fun first => ?_
  refine (rel_repeatStep (rel_branchStep hr) _).bind fun chain => ?_
  dsimp only
  split
  · exact rel_pure _
  · exact (rel_bounds hr).bind fun _ => rel_pure _

end Nested

/-- With some levels of nesting left, expressions and queries are read in related ways if they are
with none of these levels left. -/
theorem related_levels {limit limit' levels' : Nat} (levels : Nat)
    (exhausted : Nested.Related R ⟨expression limit 0, query limit 0⟩
      ⟨expression limit' levels', query limit' levels'⟩) :
    Nested.Related R ⟨expression limit levels, query limit levels⟩
      ⟨expression limit' (levels + levels'), query limit' (levels + levels')⟩ := by
  induction levels with
  | zero =>
    rw [Nat.zero_add]
    exact exhausted
  | succ levels ih =>
    rw [Nat.succ_add]
    exact ⟨rel_expressionBody ih, rel_queryBody ih⟩

/-! ## Statements -/

theorem rel_conflictClause : R.Rel conflictClause conflictClause := by
  refine rel_afterWord .OR (R.kind.bind fun k => ?_)
  split
  · exact R.advance.bind fun _ => rel_pure _
  · exact R.advance.bind fun _ => rel_pure _
  · exact R.advance.bind fun _ => rel_pure _
  · exact R.advance.bind fun _ => rel_pure _
  · exact R.advance.bind fun _ => rel_pure _
  · exact rel_fail _

theorem rel_insertColumns : R.Rel insertColumns insertColumns := by
  refine (rel_isAt _).bind fun opened => R.nextKind.bind fun behind => ?_
  split
  · exact rel_parenthesized rel_columnNames
  · exact rel_pure []

theorem rel_transactionWord : R.Rel transactionWord transactionWord := by
  refine R.kind.bind fun k => ?_
  split
  · exact R.advance
  · exact R.advance
  · exact rel_pure ()

theorem rel_transactionName : R.Rel transactionName transactionName := by
  refine R.kind.bind fun k => ?_
  split
  · exact (rel_name _).map
  · split
    · exact rel_pure none
    · exact (rel_name _).map
  · exact rel_pure none

theorem rel_isolationLevel : R.Rel isolationLevel isolationLevel := by
  refine R.kind.bind fun k => ?_
  split
  · exact R.advance.bind fun _ => rel_pure _
  · exact R.advance.bind fun _ => (rel_word .READ).bind fun _ => rel_pure _
  · refine R.advance.bind fun _ => R.kind.bind fun k => ?_
    split
    · exact R.advance.bind fun _ => rel_pure _
    · exact R.advance.bind fun _ => rel_pure _
    · exact rel_fail _
  · exact rel_fail _

theorem rel_accessMode : R.Rel accessMode accessMode := by
  refine R.kind.bind fun k => ?_
  split
  · exact R.advance.bind fun _ => rel_pure _
  · exact R.advance.bind fun _ => rel_pure _
  · exact rel_fail _

theorem rel_transactionOption (t : Transaction) :
    R.Rel (transactionOption t) (transactionOption t) := by
  refine (rel_acceptWord .ISOLATION).bind fun isolation => ?_
  split
  · exact (rel_word .LEVEL).bind fun _ => rel_isolationLevel.bind fun _ =>
      (rel_acceptSign .comma).bind fun _ => rel_pure _
  · refine (rel_acceptWord .READ).bind fun access => ?_
    split
    · exact rel_accessMode.bind fun _ => (rel_acceptSign .comma).bind fun _ => rel_pure _
    · exact rel_pure none

theorem rel_lockingMode : R.Rel lockingMode lockingMode := by
  refine R.kind.bind fun k => ?_
  split
  · exact R.advance.bind fun _ => rel_pure _
  · exact R.advance.bind fun _ => rel_pure _
  · exact R.advance.bind fun _ => rel_pure _
  · exact rel_pure none

theorem rel_beginTail : R.Rel beginTail beginTail :=
  rel_lockingMode.bind fun _ => rel_transactionWord.bind fun _ =>
    rel_transactionName.bind fun _ => rel_repeatStep rel_transactionOption _

theorem rel_startTail : R.Rel startTail startTail :=
  (rel_word .TRANSACTION).bind fun _ => rel_repeatStep rel_transactionOption _

theorem rel_commitTail : R.Rel commitTail commitTail :=
  rel_transactionWord.bind fun _ => rel_transactionName.bind fun _ => rel_pure _

theorem rel_rollbackTail : R.Rel rollbackTail rollbackTail := by
  refine rel_transactionWord.bind fun _ => (rel_acceptWord .TO).bind fun named => ?_
  split
  · exact (rel_acceptWord .SAVEPOINT).bind fun _ => (rel_name _).bind fun _ => rel_pure _
  · exact rel_transactionName.bind fun _ => rel_pure _

theorem rel_savepointTail : R.Rel savepointTail savepointTail :=
  (rel_name _).bind fun _ => rel_pure _

theorem rel_releaseTail : R.Rel releaseTail releaseTail :=
  (rel_acceptWord .SAVEPOINT).bind fun _ => (rel_name _).bind fun _ => rel_pure _

section Nested

variable (hr : Nested.Related R r r')

include hr

theorem rel_insertSource : R.Rel (insertSource r) (insertSource r') := by
  refine R.kind.bind fun k => ?_
  split
  · exact R.advance.bind fun _ =>
      (rel_commaSep (rel_parenthesized (rel_expressions hr))).map
  · exact R.advance.bind fun _ => (rel_word .VALUES).bind fun _ => rel_pure _
  · exact hr.query.map
  · exact hr.query.map
  · exact rel_fail _

theorem rel_insert : R.Rel (insert r) (insert r') := by
  have tail (onConflict : Option String) :=
    (rel_word .INTO).bind fun _ => (rel_qualifiedName "table name").bind fun table =>
      rel_insertColumns.bind fun columns => (rel_insertSource hr).bind fun source =>
        rel_pure { table, columns, source, onConflict : Insert }
  refine (rel_acceptWord .REPLACE).bind fun replace => ?_
  split
  · exact (rel_pure _).bind tail
  · exact (rel_word .INSERT).bind fun _ => rel_conflictClause.bind tail

theorem rel_assignment : R.Rel (assignment r) (assignment r') :=
  (rel_qualifiedName _).bind fun _ => (rel_sign .eq).bind fun _ =>
    (hr.expr 0).bind fun _ => rel_pure _

theorem rel_update : R.Rel (update r) (update r') :=
  (rel_word .UPDATE).bind fun _ => rel_conflictClause.bind fun _ =>
    (rel_qualifiedName _).bind fun _ => (rel_word .SET).bind fun _ =>
    (rel_commaSep (rel_assignment hr)).bind fun _ =>
    (rel_whereClause hr).bind fun _ => rel_pure _

theorem rel_delete : R.Rel (delete r) (delete r') :=
  (rel_word .DELETE).bind fun _ => (rel_word .FROM).bind fun _ =>
    (rel_qualifiedName _).bind fun _ => (rel_whereClause hr).bind fun _ => rel_pure _

theorem rel_body : R.Rel (body r) (body r') := by
  have command {tail : Parse Transaction} (h : R.Rel tail tail) :=
    R.advance.bind fun _ => h.map (g := Body.transaction)
  refine R.kind.bind fun k => ?_
  split
  · exact hr.query.map
  · exact hr.query.map
  · exact (rel_insert hr).map
  · exact (rel_insert hr).map
  · exact (rel_update hr).map
  · exact (rel_delete hr).map
  · exact command rel_beginTail
  · exact command rel_startTail
  · exact command rel_commitTail
  · exact command rel_commitTail
  · exact command rel_rollbackTail
  · exact command rel_savepointTail
  · exact command rel_releaseTail
  · exact rel_fail _

end Nested

theorem rel_statement {limit limit' : Nat}
    (hr : Nested.Related R (nested limit) (nested limit')) :
    R.Rel (statement limit) (statement limit') := by
  refine (rel_body hr).bind fun b => (rel_acceptSign .semicolon).bind fun _ => ?_
  refine (rel_isAt .eof).bind fun ended => ?_
  split
  · exact (rel_pure ()).bind fun _ => rel_pure b
  · exact (rel_fail _).bind fun _ => rel_pure b

end BoundSql.Grammar
