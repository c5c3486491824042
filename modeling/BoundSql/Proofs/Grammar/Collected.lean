import BoundSql.Proofs.Grammar.Content

/-!
# Placeholders and the trees made of them

Each rule of the grammar moves on over just those placeholders that its tree has. A statement that
is taken apart therefore has the parameters of its placeholders, one for each:
`Body.bag_ofTokens`.
-/

namespace BoundSql.Grammar

open Parse Cursor

variable {r : Nested} {before : Bag}

/-- Expressions and queries one level deeper take up what they hold. -/
structure Nested.Collecting (r : Nested) : Prop where
  expr : ∀ least, Collects .expr (r.expr least)
  query : Collects .query r.query

/-! ## Expressions -/

theorem collects_literal (l : Literal) : CollectsAt Plain 0 .expr (literal l) := by
  refine collects_over (H := fun _ => True) (fun _ plain => plain) (fun _ _ => trivial) ?_
  refine collects_kind fun k => ?_
  split
  · split
    · exact collects_advance (collects_pure (by simp [TokenKind.bag, ParamRef.bare, ParamRef.ofKey])
        (by simp))
    · exact collects_pure (by simp) (by simp)
  · exact collects_pure (by simp) (by simp)

theorem plain_of_literal? {k : TokenKind} {l : Literal} (h : literal? k = some l) : k.bag = 0 := by
  cases k with
  | param | hostParam | error => cases h
  | _ => rfl

theorem skips_typeArgument : Skips typeArgument := by
  refine collects_kind fun k => ?_
  split
  · split
    · exact collects_pass rfl (skips_pure _)
    · exact collects_failWith _
  · exact collects_fail _

theorem skips_secondTypeWord : Skips secondTypeWord := by
  refine collects_kind fun k => ?_
  split
  · split
    · exact collects_pass rfl (skips_pure _)
    · exact skips_pure none
  · exact skips_pure none

theorem skips_firstTypeWord : Skips firstTypeWord := by
  refine collects_current fun t => ?_
  split
  · rename_i here
    exact here ▸ collects_pass rfl (skips_pure _)
  · rename_i here
    exact here ▸ collects_pass rfl (skips_pure _)
  · exact collects_fail _

theorem skips_dataType : Skips dataType := by
  refine skips_firstTypeWord.skip fun first => skips_secondTypeWord.skip fun second => ?_
  refine (skips_isAt _).skip fun opened => ?_
  split
  · exact (collects_parenthesized (skips_commaSep skips_typeArgument)).skip fun _ => skips_pure _
  · exact skips_pure _

section Nested

variable (hr : r.Collecting)

include hr

theorem collects_expressions : Collects (.list .expr) (expressions r) :=
  collects_commaSep (hr.expr 0)

theorem collects_call (name : String) : Collects .expr (call r name) := by
  refine collects_parenthesized ((skips_acceptWord .DISTINCT).skip fun distinct => ?_)
  have arguments : Collects .expr (do
      if ← isAt (.punct .rightParen) then return Expr.call name distinct []
      else return .call name distinct (← expressions r)) := by
    refine (skips_isAt _).skip fun empty => ?_
    split
    · exact collects_pure (by simp) (by simp)
    · exact (collects_expressions hr).bind fun es hes =>
        collects_pure (by simp) (by simpa using hes)
  split
  · exact arguments
  · exact (skips_acceptWord .ALL).skip fun _ => arguments

theorem collects_nameFrom (fuel : Nat) (parts : List String) :
    Collects .expr (nameFrom r fuel parts) := by
  induction fuel generalizing parts with
  | zero => exact collects_pure (by simp) (by simp)
  | succ fuel ih =>
    refine (skips_acceptSign .dot).skip fun dot => ?_
    split
    · refine (skips_acceptSign .star).skip fun star => ?_
      split
      · exact collects_pure (by simp) (by simp)
      · exact skips_memberName.skip fun part => ih _
    · refine (skips_isAt _).skip fun opened => ?_
      split
      · exact collects_call hr _
      · exact collects_pure (by simp) (by simp)

theorem collects_nameExpr : Collects .expr (nameExpr r) :=
  (skips_name _).skip fun first => collects_get fun _ => collects_nameFrom hr _ [first]

theorem collects_castCall : Collects .expr (castCall r) := by
  refine (skips_word .CAST).skip fun _ => collects_parenthesized ?_
  exact (hr.expr 0).bind fun e he => (skips_word .AS).skip fun _ => skips_dataType.skip fun type =>
    collects_pure (by simp) (by simpa using he)

theorem collects_caseArm : Collects (.option (.both .expr .expr)) (caseArm r) :=
  collects_afterWord .WHEN ((hr.expr 0).bind fun w hw => (skips_word .THEN).skip fun _ =>
    (hr.expr 0).bind fun t ht => collects_pure (by simp) ⟨hw, ht⟩)

theorem collects_caseBase : Collects (.option .expr) (caseBase r) := by
  refine (skips_isAt _).skip fun arm => ?_
  split
  · exact collects_pure (by simp) (by simp)
  · exact (hr.expr 0).some

theorem collects_armStep : CollectsStep (.list (.both .expr .expr)) (armStep r) := by
  refine fun arms harms => (collects_caseArm hr).bind fun arm harm => ?_
  cases arm with
  | none => exact collects_pure (by simp [Content.on]) harms
  | some arm =>
    exact collects_pure (by simp [Content.on]) (by simpa [Content.on] using And.intro harms harm)

theorem collects_caseExpr : Collects .expr (caseExpr r) := by
  refine (skips_word .CASE).skip fun _ => (collects_caseBase hr).bind fun base hbase => ?_
  have several : Collects (.list (.both .expr .expr)) (repeatStep (armStep r) []) :=
    collects_repeatStep (collects_armStep hr) Content.sound_list_nil
  refine several.bind fun arms harms => ?_
  have tail : CollectsOn (0 + Content.bag (.option .expr) base +
      Content.bag (.list (.both .expr .expr)) arms) .expr (do
        let otherwise ← afterWord .ELSE (r.expr 0)
        word .END
        return Expr.cases base arms otherwise) :=
    (collects_afterWord .ELSE (hr.expr 0)).bind fun otherwise hotherwise =>
      (skips_word .END).skip fun _ => collects_pure (by simp) (by simp [*])
  split
  · exact (collects_fail _).skip fun _ => tail
  · exact tail

theorem collects_existsCall : Collects .expr (existsCall r) :=
  (collects_parenthesized hr.query).bind fun q hq => collects_pure (by simp) (by simpa using hq)

theorem collects_grouped : Collects .expr (grouped r) := by
  refine (skips_isAt _).skip fun select => ?_
  split
  · exact hr.query.bind fun q hq => (skips_sign .rightParen).skip fun _ =>
      collects_pure (by simp) (by simpa using hq)
  · exact (hr.expr 0).bind fun e he => (skips_sign .rightParen).skip fun _ =>
      collects_pure (by simp) he

theorem collects_keywordExpr (k : Keyword) :
    CollectsAt (Here (.keyword k)) 0 .expr (keywordExpr r k) := by
  have functionCall {k : Keyword} : CollectsAt (Here (.keyword k)) 0 .expr (do
      let t ← current
      advance
      call r t.text) := by
    intro s x s' here closed run
    have behind : CollectsAt (Here (.keyword k)) 0 .expr (do advance; call r s.current.text) :=
      collects_pass rfl (collects_call hr _)
    exact behind s x s' here closed run
  refine collects_nextKind fun behind => ?_
  split
  · exact functionCall.mono fun _ here => here.1
  · exact functionCall.mono fun _ here => here.1
  · refine collects_over (H := Plain) (fun _ here => ?_) (fun _ here => ?_) ?_
    · rw [Plain, here.1]
      rfl
    · rw [Plain, here.2]
      rfl
    · exact (collects_literal _).bind fun e he => collects_pure (by simp) (by simpa using he)
  · refine .mono ?_ fun _ here => here.1
    exact collects_pass rfl (collects_pure (by simp) (by simp))
  · exact .of (collects_caseExpr hr)
  · exact .of (collects_castCall hr)
  · refine .mono ?_ fun _ here => here.1
    exact collects_pass rfl (collects_existsCall hr)
  · split
    · exact collects_fail _
    · exact .of (collects_nameExpr hr)

theorem collects_primary : Collects .expr (primary r) := by
  refine collects_kind fun k => ?_
  split
  · rename_i literal
    refine (collects_literal _).mono fun _ here => ?_
    rw [Plain, here]
    exact plain_of_literal? literal
  · split
    · exact collects_advance
        (collects_pure (by simp [TokenKind.bag, ParamRef.bare, ParamRef.ofKey]) (by simp))
    · exact collects_advance
        (collects_pure (by simp [TokenKind.bag, ParamRef.bare, ParamRef.ofKey]) (by simp))
    · exact collects_pass rfl (collects_pure (by simp) (by simp))
    · exact collects_pass rfl (collects_grouped hr)
    · exact .of (collects_nameExpr hr)
    · exact collects_keywordExpr hr _
    · exact collects_fail _

theorem collects_operand : Collects .expr (operand r) := by
  have prefixed (op : Operator) (least : Nat) : Collects .expr (do
      return Expr.operation op [← r.expr least]) :=
    (hr.expr least).bind fun e he => collects_pure (by simp) (by simpa using he)
  refine collects_kind fun k => ?_
  split
  · exact collects_pass rfl (prefixed .not _)
  · exact collects_pass rfl (prefixed .minus _)
  · exact collects_pass rfl (prefixed .bitNot _)
  · exact collects_pass rfl (hr.expr _)
  · exact .of (collects_primary hr)

end Nested

/-- A combined operation holds what its sides do. -/
theorem bag_combine (op : Operator) (lhs rhs : Expr) :
    Content.expr.bag (combine op lhs rhs) = Content.expr.bag lhs + Content.expr.bag rhs := by
  unfold combine
  split
  · split <;> simp
  · simp

theorem sound_combine {op : Operator} {lhs rhs : Expr} (hlhs : Content.expr.sound lhs)
    (hrhs : Content.expr.sound rhs) : Content.expr.sound (combine op lhs rhs) := by
  unfold combine
  split
  · split <;> simp_all
  · simp_all

section Nested

variable (hr : r.Collecting) {lhs : Expr} (hlhs : Content.expr.sound lhs)

include hr hlhs

theorem collects_inList (op : Operator) :
    CollectsOn (Content.expr.bag lhs) .expr (inList r op lhs) := by
  refine collects_parenthesized ((skips_isAt _).skip fun select => ?_)
  split
  · exact hr.query.bind fun q hq => collects_pure (by simp) (by simp [*])
  · exact (collects_expressions hr).bind fun es hes => collects_pure (by simp) (by simp [*])

theorem collects_betweenBounds : CollectsOn (Content.expr.bag lhs) .expr (betweenBounds r lhs) :=
  (hr.expr _).bind fun low hlow => (skips_word .AND).skip fun _ =>
    (hr.expr _).bind fun high hhigh => collects_pure (by simp [add_assoc]) (by simp [*])

theorem collects_similarPattern : CollectsOn (Content.expr.bag lhs) .expr (similarPattern r lhs) :=
  (skips_word .TO).skip fun _ => (hr.expr _).bind fun pattern hpattern =>
    collects_pure (by simp) (by simp [*])

theorem collects_negatedTail : CollectsOn (Content.expr.bag lhs) .expr (negatedTail r lhs) := by
  have pattern (op : Operator) : CollectsOn (Content.expr.bag lhs) .expr (do
      return Expr.operation op [lhs, ← r.expr Infix.negated.right]) :=
    (hr.expr _).bind fun e he => collects_pure (by simp) (by simp [*])
  refine collects_kind fun k => ?_
  split
  · exact collects_pass rfl (collects_inList hr hlhs .notIn)
  · exact collects_pass rfl (pattern .notLike)
  · exact collects_pass rfl (pattern .notIlike)
  · exact collects_pass rfl ((collects_betweenBounds hr hlhs).seq fun e he =>
      collects_pure (by simp) (by simpa using he))
  · exact collects_pass rfl ((collects_similarPattern hr hlhs).seq fun e he =>
      collects_pure (by simp) (by simpa using he))
  · exact collects_pass rfl (collects_pure (by simp) (by simpa using hlhs))
  · exact collects_fail _

theorem collects_isTail : CollectsOn (Content.expr.bag lhs) .expr (isTail r lhs) := by
  refine (skips_acceptWord .NOT).skip fun negated => (skips_acceptWord .NULL).skip fun null => ?_
  split
  · exact collects_pure (by simp) (by simpa using hlhs)
  · refine (hr.expr _).bind fun e he => ?_
    cases negated
    · exact collects_pure (by simp) (by simp [*])
    · exact collects_pure (by simp) (by simp [*])

theorem collects_infixTail (form : Infix) :
    CollectsOn (Content.expr.bag lhs) .expr (infixTail r lhs form) := by
  cases form with
  | cast => exact skips_dataType.skip fun _ => collects_pure (by simp) (by simpa using hlhs)
  | isNull => exact collects_pure (by simp) (by simpa using hlhs)
  | isNotNull => exact collects_pure (by simp) (by simpa using hlhs)
  | is => exact collects_isTail hr hlhs
  | negated => exact collects_negatedTail hr hlhs
  | isIn => exact collects_inList hr hlhs .isIn
  | between => exact collects_betweenBounds hr hlhs
  | similar => exact collects_similarPattern hr hlhs
  | binary op =>
    exact (hr.expr _).bind fun e he =>
      collects_pure (bag_combine op lhs e).symm (sound_combine hlhs he)

end Nested

theorem plain_ofToken? {k : TokenKind} {form : Infix} (h : Infix.ofToken? k = some form) :
    k.bag = 0 := by
  unfold Infix.ofToken? at h
  split at h
  · rfl
  · rfl
  · cases h

section Nested

variable (hr : r.Collecting)

include hr

theorem collects_infixStep (least : Nat) : CollectsStep .expr (infixStep r least) := by
  intro lhs hlhs
  refine collects_kind fun k => ?_
  split
  · exact collects_pure rfl hlhs
  · rename_i form hform
    split
    · exact collects_pure rfl hlhs
    · exact collects_pass (plain_ofToken? hform) (collects_infixTail hr hlhs form).map

theorem collects_expressionBody (least : Nat) : Collects .expr (expressionBody r least) :=
  (collects_operand hr).seq fun _ hfirst => collects_repeatStep (collects_infixStep hr least) hfirst

end Nested

/-! ## Queries -/

theorem skips_label : Skips label := by
  refine (skips_acceptWord .AS).skip fun explicit => ?_
  split
  · refine collects_kind fun k => ?_
    split
    · exact collects_pass rfl (skips_pure _)
    · exact .of (skips_name _).map
  · refine collects_kind fun k => ?_
    split
    · exact .of (skips_name _).map
    · split
      · exact skips_pure none
      · exact .of (skips_name _).map
    · exact skips_pure none

theorem skips_naturalWords : Skips naturalWords := by
  have tail : Skips (do let _ ← acceptWord .OUTER) :=
    (skips_acceptWord .OUTER).skip fun _ => skips_pure ()
  refine collects_kind fun k => ?_
  split
  · exact collects_pass rfl tail
  · exact collects_pass rfl tail
  · exact collects_pass rfl tail
  · exact collects_pass rfl tail
  · exact .of tail

theorem skips_joinKind : Skips joinKind := by
  have plain (kind : JoinKind) : Skips (do word .JOIN; return some kind) :=
    (skips_word .JOIN).skip fun _ => skips_pure (some kind)
  have outer {k : Keyword} (kind : JoinKind) :
      CollectsAt (Here (.keyword k)) 0 .nothing (joinKind.outer kind) :=
    collects_pass rfl ((skips_acceptWord .OUTER).skip fun _ => plain kind)
  refine collects_kind fun k => ?_
  split
  · exact collects_pass rfl (skips_pure _)
  · exact collects_pass rfl (skips_pure _)
  · exact collects_pass rfl (skips_naturalWords.skip fun _ => plain .natural)
  · exact collects_pass rfl (plain .cross)
  · exact collects_pass rfl (plain .inner)
  · exact outer .left
  · exact outer .right
  · exact outer .full
  · exact skips_pure none

theorem skips_setOp : Skips setOp := by
  have variant {k : Keyword} (plain all : SetOp) :
      CollectsAt (Here (.keyword k)) 0 .nothing (some <$> setOp.variant plain all) := by
    refine CollectsAt.map (collects_pass rfl ((skips_acceptWord .ALL).skip fun every => ?_))
    split
    · exact skips_pure all
    · exact (skips_acceptWord .DISTINCT).skip fun _ => skips_pure plain
  refine collects_kind fun k => ?_
  split
  · exact variant .union .unionAll
  · exact variant .intersect .intersectAll
  · exact variant .except .exceptAll
  · exact skips_pure none

theorem skips_collation : Skips collation := by
  refine collects_kind fun k => ?_
  split
  · exact collects_pass rfl (skips_pure _)
  · exact .of (skips_name _)

theorem skips_sortOrder : Skips sortOrder := by
  refine (skips_acceptWord .DESC).skip fun descending => ?_
  split
  · exact skips_pure _
  · exact (skips_acceptWord .ASC).skip fun _ => skips_pure _

/-- A query without bounding clauses holds, with some in place, what those hold besides. -/
theorem bag_withBounds {q : Query} (h : q.isBounded = false) (b : Bounds) :
    Content.query.bag (withBounds b q) = Content.query.bag q + Content.bounds.bag b := by
  cases q with
  | select s =>
    have none : s.orderBy = [] ∧ s.limit = none ∧ s.offset = none := by
      simpa [Query.isBounded, Select.isBounded, and_assoc] using h
    simp [withBounds, Content.bag_select, none]
  | compound c =>
    have none : c.orderBy = [] ∧ c.limit = none ∧ c.offset = none := by
      simpa [Query.isBounded, Compound.isBounded, and_assoc] using h
    simp [withBounds, Content.bag_compound, none]

theorem sound_withBounds {q : Query} {b : Bounds} (hq : Content.query.sound q)
    (hb : Content.bounds.sound b) : Content.query.sound (withBounds b q) := by
  cases q with
  | select s =>
    rw [Content.sound_select] at hq
    obtain ⟨hdistinct, hcolumns, hsource, hcondition, hgroup, hhaving, -⟩ := hq
    exact (Content.sound_select _).2 ⟨hdistinct, hcolumns, hsource, hcondition, hgroup, hhaving, hb⟩
  | compound c =>
    rw [Content.sound_compound] at hq
    exact (Content.sound_compound _).2 ⟨hq.1, hb⟩

/-- A single branch holds what the chain does. -/
theorem bag_reduce (c : Compound) :
    Content.query.bag c.reduce = Content.query.bag (.compound c) := by
  obtain ⟨op, branches, orderBy, limit, offset⟩ := c
  unfold Compound.reduce
  split
  · rename_i only honly
    cases honly
    split
    · rfl
    · rename_i unbounded
      have none : orderBy = [] ∧ limit = none ∧ offset = none := by
        simpa [Compound.isBounded, and_assoc] using unbounded
      simp [Content.bag_compound, none]
  · rfl

theorem sound_reduce {c : Compound} (h : Content.query.sound (.compound c)) :
    Content.query.sound c.reduce := by
  obtain ⟨op, branches, orderBy, limit, offset⟩ := c
  unfold Compound.reduce
  split
  · rename_i only honly
    cases honly
    split
    · exact h
    · simpa using ((Content.sound_compound _).1 h).1
  · exact h

theorem bag_addBranch (chain : Compound) (op : SetOp) (q : Query) :
    Content.query.bag (.compound (addBranch chain op q)) =
      Content.query.bag (.compound chain) + Content.query.bag q := by
  unfold addBranch
  split
  · simp [Content.bag_compound, add_right_comm]
  · simp [Content.bag_compound, Compound.ofBranches]

theorem sound_addBranch {chain : Compound} {q : Query} (op : SetOp)
    (hchain : Content.query.sound (.compound chain)) (hq : Content.query.sound q) :
    Content.query.sound (.compound (addBranch chain op q)) := by
  unfold addBranch
  split
  · obtain ⟨hbranches, hbounds⟩ := (Content.sound_compound _).1 hchain
    exact (Content.sound_compound _).2 ⟨by simp [*], hbounds⟩
  · exact (Content.sound_compound _).2 ⟨by simp [Compound.ofBranches, *], Content.sound_bounds_none⟩

section Nested

variable (hr : r.Collecting)

include hr

theorem collects_column : Collects (.on .expr Column.expr) (column r) := by
  refine (hr.expr 0).bind fun e he => ?_
  split
  · exact collects_pure (zero_add _) he
  · exact skips_label.skip fun _ => collects_pure (zero_add _) he

theorem collects_target : Collects .target (target r) := by
  have named (rows : TableSource) (hrows : Content.sound (.option .query) rows.query?) :
      CollectsOn (Content.bag (.option .query) rows.query?) .target
        (do return { rows, label := ← label : Target }) :=
    skips_label.skip fun _ => collects_pure rfl hrows
  have subquery : Collects (.on (.option .query) TableSource.query?)
      (TableSource.subquery <$> parenthesized r.query) :=
    (collects_parenthesized hr.query).mapTo (fun q => (Content.bag_option_some q).symm)
      fun q hq => (Content.sound_option_some q).2 hq
  have table : Collects (.on (.option .query) TableSource.query?)
      (TableSource.table <$> qualifiedName "table name") :=
    (skips_qualifiedName _).mapTo (fun _ => rfl) fun _ _ => Content.sound_option_none
  refine (skips_isAt _).skip fun opened => ?_
  split
  · exact subquery.seq named
  · exact table.seq named

theorem collects_joinCondition (k : JoinKind) : Collects .condition (joinCondition r k) := by
  unfold joinCondition
  split
  · exact collects_pure rfl Content.sound_option_none
  · refine (skips_acceptWord .ON).skip fun on => ?_
    split
    · exact (hr.expr 0).bind fun e he => collects_pure
        ((zero_add _).trans (Content.bag_option_some e).symm) ((Content.sound_option_some e).2 he)
    · refine (skips_acceptWord .USING).skip fun «using» => ?_
      split
      · exact (collects_parenthesized skips_columnNames).skip fun _ =>
          collects_pure rfl Content.sound_option_none
      · exact collects_pure rfl Content.sound_option_none

theorem collects_joinStep : CollectsStep .fromClause (joinStep r) := by
  refine fun c hc => skips_joinKind.skip fun kind => ?_
  cases kind with
  | none => exact collects_pure rfl hc
  | some kind =>
    exact (collects_target hr).bind fun t ht => (collects_joinCondition hr kind).bind fun on hon =>
      collects_pure (Content.bag_fromClause_push c t ⟨kind, c.targets.length, on⟩).symm
        (Content.sound_fromClause_push hc ht kind hon)

theorem collects_fromClause : Collects .fromClause (fromClause r) := by
  refine (collects_target hr).seq fun t ht => ?_
  rw [← Content.bag_fromClause_single]
  exact collects_repeatStep (collects_joinStep hr) (Content.sound_fromClause_single ht)

theorem collects_distinctClause : Collects (.both .nothing (.option .expr)) (distinctClause r) := by
  refine (skips_acceptWord .DISTINCT).skip fun distinct => ?_
  split
  · exact (collects_afterWord .ON (collects_parenthesized (hr.expr 0))).bind
      fun on hon => collects_pure (by simp) (by simpa using hon)
  · exact (skips_acceptWord .ALL).skip fun _ => collects_pure (by simp) (by simp)

theorem collects_whereClause : Collects (.option .expr) (whereClause r) :=
  collects_afterWord .WHERE (hr.expr 0)

theorem collects_selectCore : Collects (.on .query Query.select) (selectCore r) := by
  refine (skips_word .SELECT).skip fun _ =>
    (collects_distinctClause hr).bind fun (distinct, on) hon => ?_
  refine (collects_commaSep (collects_column hr)).bind fun columns hcolumns => ?_
  refine (collects_afterWord .FROM (collects_fromClause hr)).bind fun source hsource => ?_
  refine (collects_whereClause hr).bind fun condition hcondition => ?_
  refine (collects_afterWord .GROUP
    ((skips_word .BY).skip fun _ => collects_expressions hr)).bind fun groupBy hgroup => ?_
  refine (collects_afterWord .HAVING (hr.expr 0)).bind fun having hhaving => collects_pure ?_ ?_
  · simp [Content.on, Content.bag_select]
  · exact (Content.sound_select _).2 ⟨hon.2, hcolumns, hsource, hcondition,
      (Content.sound_list_getD groupBy).2 hgroup, hhaving, Content.sound_bounds_none⟩

theorem collects_orderItem : Collects (.on .expr OrderItem.expr) (orderItem r) :=
  (hr.expr 0).bind fun _ he => (skips_afterWord .COLLATE skips_collation).skip fun _ =>
    skips_sortOrder.skip fun _ => collects_pure (zero_add _) he

theorem collects_limitClause :
    Collects (.both (.option .expr) (.option .expr)) (limitClause r) := by
  refine (skips_acceptWord .LIMIT).skip fun limited => ?_
  split
  · refine (hr.expr 0).bind fun first hfirst => (skips_acceptSign .comma).skip fun comma => ?_
    split
    · exact (hr.expr 0).bind fun second hsecond =>
        collects_pure (by simp [add_comm]) (by simp [*])
    · exact collects_pure (by simp) (by simp [*])
  · exact collects_pure (by simp) (by simp)

theorem collects_bounds : Collects .bounds (bounds r) := by
  refine (collects_afterWord .ORDER ((skips_word .BY).skip fun _ =>
    collects_commaSep (collects_orderItem hr))).bind fun orderBy horder => ?_
  refine (collects_limitClause hr).bind fun (limit, offset) hlimit => ?_
  cases offset with
  | none =>
    exact (collects_afterWord .OFFSET (hr.expr 0)).bind fun offset hoffset =>
      collects_pure (by simp [Content.bounds, Content.on, add_assoc])
        (by simpa [Content.bounds, Content.on] using ⟨horder, hlimit.1, hoffset⟩)
  | some offset =>
    exact collects_pure (by simp [Content.bounds, Content.on])
      (by simpa [Content.bounds, Content.on] using And.intro horder hlimit)

theorem collects_queryTerm : Collects .query (queryTerm r) := by
  refine (skips_isAt _).skip fun opened => ?_
  split
  · exact collects_parenthesized hr.query
  · exact (collects_selectCore hr).map

theorem collects_branchStep : CollectsStep (.on .query Query.compound) (branchStep r) := by
  refine fun chain hchain => skips_setOp.skip fun op => ?_
  cases op with
  | none => exact collects_pure rfl hchain
  | some op => exact (collects_queryTerm hr).bind fun q hq =>
      collects_pure (bag_addBranch chain op q).symm (sound_addBranch op hchain hq)

theorem collects_queryBody : Collects .query (queryBody r) := by
  refine (collects_queryTerm hr).seq fun first hfirst => ?_
  have chain : CollectsOn (Content.query.bag first) (.on .query Query.compound)
      (repeatStep (branchStep r) (.ofBranches .union [first])) := by
    have single : Content.query.bag (.compound (.ofBranches .union [first])) =
        Content.query.bag first := by simp [Content.bag_compound, Compound.ofBranches]
    rw [← single]
    refine collects_repeatStep (collects_branchStep hr) ((Content.sound_compound _).2 ⟨?_, ?_⟩)
    · simpa [Compound.ofBranches] using hfirst
    · exact Content.sound_bounds_none
  refine chain.seq fun c hc => ?_
  dsimp only
  split
  · exact collects_pure (bag_reduce c).symm (sound_reduce hc)
  · rename_i unbounded
    refine (collects_bounds hr).bind fun b hb =>
      collects_pure ?_ (sound_withBounds (sound_reduce hc) hb)
    rw [bag_withBounds (by simpa using unbounded), bag_reduce]
    rfl

end Nested

/-- However deep expressions and queries may nest, they take up what they hold. -/
theorem collects_levels (limit levels : Nat) :
    (∀ least, Collects .expr (expression limit levels least)) ∧
      Collects .query (query limit levels) := by
  induction levels with
  | zero => exact ⟨fun _ => collects_failWith _, collects_failWith _⟩
  | succ levels ih =>
    have hr : Nested.Collecting ⟨expression limit levels, query limit levels⟩ := ⟨ih.1, ih.2⟩
    exact ⟨fun least => collects_expressionBody hr least, collects_queryBody hr⟩

/-! ## Statements -/

theorem skips_conflictClause : Skips conflictClause := by
  refine skips_afterWord .OR (collects_kind fun k => ?_)
  split
  · exact collects_pass rfl (skips_pure _)
  · exact collects_pass rfl (skips_pure _)
  · exact collects_pass rfl (skips_pure _)
  · exact collects_pass rfl (skips_pure _)
  · exact collects_pass rfl (skips_pure _)
  · exact collects_fail _

theorem skips_insertColumns : Skips insertColumns := by
  refine (skips_isAt _).skip fun opened => collects_nextKind fun behind => ?_
  split
  · exact .of (collects_parenthesized skips_columnNames)
  · exact skips_pure []

theorem skips_transactionWord : Skips transactionWord := by
  refine collects_kind fun k => ?_
  split
  · exact skips_advance rfl
  · exact skips_advance rfl
  · exact skips_pure ()

theorem skips_transactionName : Skips transactionName := by
  refine collects_kind fun k => ?_
  split
  · exact .of (skips_name _).map
  · split
    · exact skips_pure none
    · exact .of (skips_name _).map
  · exact skips_pure none

theorem skips_isolationLevel : Skips isolationLevel := by
  refine collects_kind fun k => ?_
  split
  · exact collects_pass rfl (skips_pure _)
  · exact collects_pass rfl ((skips_word .READ).skip fun _ => skips_pure _)
  · refine collects_pass rfl (collects_kind fun k => ?_)
    split
    · exact collects_pass rfl (skips_pure _)
    · exact collects_pass rfl (skips_pure _)
    · exact collects_fail _
  · exact collects_fail _

theorem skips_accessMode : Skips accessMode := by
  refine collects_kind fun k => ?_
  split
  · exact collects_pass rfl (skips_pure _)
  · exact collects_pass rfl (skips_pure _)
  · exact collects_fail _

theorem skips_transactionOption (t : Transaction) : Skips (transactionOption t) := by
  refine (skips_acceptWord .ISOLATION).skip fun isolation => ?_
  split
  · exact (skips_word .LEVEL).skip fun _ => skips_isolationLevel.skip fun _ =>
      (skips_acceptSign .comma).skip fun _ => skips_pure _
  · refine (skips_acceptWord .READ).skip fun access => ?_
    split
    · exact skips_accessMode.skip fun _ => (skips_acceptSign .comma).skip fun _ => skips_pure _
    · exact skips_pure none

theorem skips_transactionOptions (t : Transaction) : Skips (repeatStep transactionOption t) :=
  collects_repeatStep (e := .nothing) (fun t _ => skips_transactionOption t) trivial

theorem skips_lockingMode : Skips lockingMode := by
  refine collects_kind fun k => ?_
  split
  · exact collects_pass rfl (skips_pure _)
  · exact collects_pass rfl (skips_pure _)
  · exact collects_pass rfl (skips_pure _)
  · exact skips_pure none

theorem skips_beginTail : Skips beginTail :=
  skips_lockingMode.skip fun _ => skips_transactionWord.skip fun _ =>
    skips_transactionName.skip fun _ => skips_transactionOptions _

theorem skips_startTail : Skips startTail :=
  (skips_word .TRANSACTION).skip fun _ => skips_transactionOptions _

theorem skips_commitTail : Skips commitTail :=
  skips_transactionWord.skip fun _ => skips_transactionName.skip fun _ => skips_pure _

theorem skips_rollbackTail : Skips rollbackTail := by
  refine skips_transactionWord.skip fun _ => (skips_acceptWord .TO).skip fun named => ?_
  split
  · exact (skips_acceptWord .SAVEPOINT).skip fun _ => (skips_name _).skip fun _ => skips_pure _
  · exact skips_transactionName.skip fun _ => skips_pure _

theorem skips_savepointTail : Skips savepointTail := (skips_name _).skip fun _ => skips_pure _

theorem skips_releaseTail : Skips releaseTail :=
  (skips_acceptWord .SAVEPOINT).skip fun _ => (skips_name _).skip fun _ => skips_pure _

section Nested

variable (hr : r.Collecting)

include hr

theorem collects_insertSource : Collects .insertSource (insertSource r) := by
  have rows : Collects .insertSource
      (InsertSource.values <$> commaSep (parenthesized (expressions r))) :=
    (collects_commaSep (collects_parenthesized (collects_expressions hr))).mapTo
      (fun rows => by
        simp [Content.insertSource, Content.on, InsertSource.parts, InsertSource.queries])
      fun rows hrows => by
        simpa [Content.insertSource, Content.on, InsertSource.parts, InsertSource.queries]
          using hrows
  have query : Collects .insertSource (InsertSource.query <$> r.query) :=
    hr.query.mapTo
      (fun q => by
        simp [Content.insertSource, Content.on, InsertSource.parts, InsertSource.queries])
      fun q hq => by
        simpa [Content.insertSource, Content.on, InsertSource.parts, InsertSource.queries] using hq
  refine collects_kind fun k => ?_
  split
  · exact collects_pass rfl rows
  · exact collects_pass rfl ((skips_word .VALUES).skip fun _ => collects_pure rfl (by
      simp [Content.insertSource, Content.on, InsertSource.parts, InsertSource.queries]))
  · exact .of query
  · exact .of query
  · exact collects_fail _

theorem collects_insert : Collects (.on .insertSource Insert.source) (insert r) := by
  have tail (onConflict : Option String) : Collects (.on .insertSource Insert.source) (do
      word .INTO
      let table ← qualifiedName "table name"
      let columns ← insertColumns
      return { table, columns, source := ← insertSource r, onConflict : Insert }) :=
    (skips_word .INTO).skip fun _ => (skips_qualifiedName _).skip fun _ =>
      skips_insertColumns.skip fun _ => (collects_insertSource hr).seq fun _ hsource =>
        collects_pure rfl hsource
  refine (skips_acceptWord .REPLACE).skip fun replace => ?_
  split
  · exact (skips_pure _).skip tail
  · exact (skips_word .INSERT).skip fun _ => skips_conflictClause.skip tail

theorem collects_assignment : Collects (.on .expr Assignment.value) (assignment r) :=
  (skips_qualifiedName _).skip fun _ => (skips_sign .eq).skip fun _ =>
    (hr.expr 0).seq fun _ he => collects_pure rfl he

theorem collects_update : Collects (.on .body Body.update) (update r) :=
  (skips_word .UPDATE).skip fun _ => skips_conflictClause.skip fun _ =>
    (skips_qualifiedName _).skip fun _ => (skips_word .SET).skip fun _ =>
    (collects_commaSep (collects_assignment hr)).bind fun _ hset =>
    (collects_whereClause hr).bind fun _ hcondition => collects_pure
      (by simp [Content.on, Content.bag_body, Body.parts, Body.queries, Body.fragments])
      (by simpa [Content.on, Content.body, Body.parts, Body.queries]
        using And.intro hset hcondition)

theorem collects_delete : Collects (.on .body Body.delete) (delete r) :=
  (skips_word .DELETE).skip fun _ => (skips_word .FROM).skip fun _ =>
    (skips_qualifiedName _).skip fun _ =>
    (collects_whereClause hr).seq fun _ hcondition => collects_pure
      (by simp [Content.on, Content.bag_body, Body.parts, Body.queries, Body.fragments])
      (by simpa [Content.on, Content.body, Body.parts, Body.queries] using hcondition)

theorem collects_body : Collects .body (body r) := by
  have query : Collects .body (Body.ofQuery <$> r.query) :=
    hr.query.mapTo
      (fun q => by
        cases q <;> simp [Content.bag_body, Body.ofQuery, Body.parts, Body.queries, Body.fragments])
      fun q hq => by
        cases q <;> simpa [Content.body, Body.ofQuery, Body.parts, Body.queries] using hq
  have insert : Collects .body (Body.insert <$> insert r) :=
    (collects_insert hr).mapTo (fun i => by
      simp [Content.on, Content.insertSource, Content.bag_body, Body.parts, Body.queries,
        Body.fragments])
      fun i hi => hi
  have command {tail : Parse Transaction} (h : Skips tail) :
      Collects .body (Body.transaction <$> tail) :=
    h.mapTo (fun _ => rfl) fun _ _ => by simp [Content.body, Body.parts, Body.queries]
  refine collects_kind fun k => ?_
  split
  · exact .of query
  · exact .of query
  · exact .of insert
  · exact .of insert
  · exact .of (collects_update hr).map
  · exact .of (collects_delete hr).map
  · exact collects_pass rfl (command skips_beginTail)
  · exact collects_pass rfl (command skips_startTail)
  · exact collects_pass rfl (command skips_commitTail)
  · exact collects_pass rfl (command skips_commitTail)
  · exact collects_pass rfl (command skips_rollbackTail)
  · exact collects_pass rfl (command skips_savepointTail)
  · exact collects_pass rfl (command skips_releaseTail)
  · exact collects_fail _

end Nested

theorem collects_statement (limit : Nat) : Collects .body (statement limit) := by
  have hr : (nested limit).Collecting :=
    ⟨(collects_levels limit limit).1, (collects_levels limit limit).2⟩
  refine (collects_body hr).seq fun b hb => (skips_acceptSign .semicolon).skip fun _ => ?_
  refine (skips_isAt .eof).skip fun ended => ?_
  split
  · exact (skips_pure ()).skip fun _ => collects_pure rfl hb
  · exact (collects_fail _).skip fun _ => collects_pure rfl hb

/-- A statement goes up to the end of the input. -/
theorem statement_ends {limit : Nat} {s s' : Cursor} {b : Body}
    (run : (statement limit).run s = .ok (b, s')) : s'.current.kind = .eof := by
  obtain ⟨b', s₁, -, behind⟩ := run_bind_eq_ok run
  obtain ⟨-, s₂, -, rest⟩ := run_bind_eq_ok behind
  change (if s₂.current.kind == .eof then _ else _ : Parse Body).run s₂ = _ at rest
  split at rest
  · rename_i eof
    cases rest
    exact beq_iff_eq.1 eof
  · cases rest

end BoundSql.Grammar

namespace BoundSql

/-- A statement that is taken apart has the parameters of its placeholders, one for each, and no
token of it is an error. -/
theorem Body.bag_ofTokens {limit : Nat} {ts : List Token} {b : Body} (closed : Token.Closed ts)
    (h : ofTokens limit ts = .ok b) :
    (ts.map (·.kind.bag)).sum = Bag.ofParams b.params ∧ Content.body.sound b := by
  cases ts with
  | nil => cases closed
  | cons t ts =>
    unfold ofTokens at h
    cases run : (Grammar.statement limit).run (Cursor.ofTokens (t :: ts)) with
    | error e =>
      rw [run] at h
      cases h
    | ok result =>
      obtain ⟨b', s⟩ := result
      rw [run] at h
      cases h
      obtain ⟨held, sound, closed'⟩ :=
        Grammar.collects_statement limit (Cursor.ofTokens (t :: ts)) b' s trivial closed run
      rw [closed'.bag_eof (Grammar.statement_ends run), zero_add, add_zero] at held
      refine ⟨?_, sound⟩
      rw [List.map_cons, List.sum_cons]
      exact held

end BoundSql
