import BoundSql.Proofs.Grammar.Followed

/-!
# Statements follow their text

What the words of a statement are worth, its tree is worth: `Body.marks_le_worth`.
-/

namespace BoundSql

open Parse Cursor Grammar

variable {N : Type} [AddMonoid N] [Preorder N] (v : Marking N)

namespace Marking

variable [AddLeftMono N] [AddRightMono N]

/-! ## Joins -/

/-- What stands behind the kind of a join. -/
def joinTail (j : JoinKind) : Parse (Option JoinKind) := do
  let _ ← acceptWord .OUTER
  word .JOIN
  return some j

theorem run_joinTail {j : JoinKind} {s s' : Cursor} {x : Option JoinKind}
    (run : (joinTail j).run s = .ok (x, s')) :
    x = some j ∧ (s.current.kind = .keyword .OUTER ∨ s.current.kind = .keyword .JOIN) := by
  by_cases outer : s.current.kind = .keyword .OUTER
  · obtain ⟨_, s₁, -, rest⟩ := run_bind_eq_ok run
    obtain ⟨_, s₂, -, last⟩ := run_bind_eq_ok rest
    cases last
    exact ⟨rfl, .inl outer⟩
  · rw [joinTail, acceptWord, run_accept_bind, if_neg outer] at run
    obtain ⟨_, s₂, first, last⟩ := run_bind_eq_ok run
    cases last
    refine ⟨rfl, .inr ?_⟩
    rw [word, acceptWord, run_accept_bind] at first
    by_contra other
    rw [if_neg other] at first
    cases first

theorem idles_joinTail (j : JoinKind) : Idles v.marks (joinTail j) :=
  follows_ifAccept (v.idle_keyword .OUTER (by decide)) fun _ =>
    follows_word (v.idle_keyword .JOIN (by decide)) (idles_pure _)

/-- A keyword that is worth a join in front of OUTER and JOIN. -/
theorem follows_joinTail {k : Keyword} {j : JoinKind}
    (worth : ∀ w v' ws, w.kind = .keyword k → v'.kind = .keyword .OUTER ∨ v'.kind = .keyword .JOIN →
      ↑(v.marks (w :: v' :: ws)) ≤ v.join j + ↑(v.marks (v' :: ws))) :
    FollowsAt v.marks (Here (.keyword k)) 0 (fun o => o.elim 0 v.join)
      (advance >>= fun _ => joinTail j) := by
  intro s x s' here closed run
  obtain ⟨rfl, behind⟩ := run_joinTail (s := s.next) run
  obtain ⟨held, closed'⟩ := v.idles_joinTail j s.next _ s' trivial closed.next run
  rw [zero_add, zero_add] at held
  refine ⟨?_, closed'⟩
  have more : s.next.current.kind ≠ .eof := by rcases behind with kind | kind <;> simp [kind]
  have step := worth s.current.toWord s.next.current.toWord s.next.next.words here behind
  rw [← closed.next.words_eq rfl more] at step
  rw [zero_add, Cursor.marks, closed.words_eq here (by simp)]
  exact step.trans (add_le_add_right held _)

theorem follows_natural :
    FollowsAt v.marks (Here (.keyword .NATURAL)) 0 (fun o => o.elim 0 v.join)
      (advance >>= fun _ => naturalWords >>= fun _ => word .JOIN >>= fun _ =>
        pure (some .natural)) := by
  -- A keyword behind NATURAL is moved over together with it.
  have lost {k : Keyword} (hk : k = .INNER ∨ ∃ j, JoinKind.ofOuter? k = some j) {s s' : Cursor}
      {x : Option JoinKind} (here : Here (.keyword .NATURAL) s) (closed : s.Closed)
      (kind : s.next.current.kind = .keyword k)
      (run : (joinTail .natural).run s.next.next = .ok (x, s')) :
      0 + s.marks v.marks ≤ x.elim 0 v.join + s'.marks v.marks ∧ s'.Closed := by
    obtain ⟨rfl, -⟩ := run_joinTail run
    obtain ⟨held, closed'⟩ := v.idles_joinTail _ _ _ s' trivial closed.next.next run
    rw [zero_add, zero_add] at held
    refine ⟨?_, closed'⟩
    have step := v.naturalKind_le s.current.toWord s.next.current.toWord s.next.next.words here
      (hk.imp (fun inner => kind.trans (by rw [inner])) fun ⟨j, hj⟩ => ⟨k, j, kind, hj⟩)
    rw [zero_add, Cursor.marks, closed.words_eq here (by simp),
      closed.next.words_eq kind (by simp)]
    exact step.trans (add_le_add_right held _)
  intro s x s' here closed run
  rw [run_advance_bind, naturalWords, bind_assoc, run_kind_bind] at run
  split at run <;> simp only [bind_assoc, pure_bind] at run
  · rename_i kind
    exact lost (.inl rfl) here closed kind run
  · rename_i kind
    exact lost (.inr ⟨_, rfl⟩) here closed kind run
  · rename_i kind
    exact lost (.inr ⟨_, rfl⟩) here closed kind run
  · rename_i kind
    exact lost (.inr ⟨_, rfl⟩) here closed kind run
  · exact v.follows_joinTail v.natural_le s x s' here closed run

theorem follows_joinKind : Follows v.marks (fun o => o.elim 0 v.join) joinKind := by
  have joined {j : JoinKind} (hj : 0 ≤ v.join j) :
      Follows v.marks (fun o => o.elim 0 v.join) (do word .JOIN; return some j) :=
    follows_word (v.idle_keyword .JOIN (by decide)) (follows_pure hj)
  refine follows_kind fun k => ?_
  split
  · exact follows_pass (v.idle_punct .comma (by decide) (by decide)) (follows_pure v.zero_le_cross)
  · exact follows_pass (v.idle_keyword .JOIN (by decide)) (follows_pure v.zero_le_inner)
  · exact v.follows_natural
  · exact follows_pass (v.idle_keyword .CROSS (by decide)) (joined v.zero_le_cross)
  · exact follows_pass (v.idle_keyword .INNER (by decide)) (joined v.zero_le_inner)
  · exact v.follows_joinTail fun w v' ws kind behind => v.outer_le w v' ws _ _ kind rfl behind
  · exact v.follows_joinTail fun w v' ws kind behind => v.outer_le w v' ws _ _ kind rfl behind
  · exact v.follows_joinTail fun w v' ws kind behind => v.outer_le w v' ws _ _ kind rfl behind
  · exact follows_pure le_rfl

/-! ## Queries -/

theorem idles_setOp : Idles v.marks setOp := by
  have variant {k : Keyword} (hk : k.IsOrdinary) (plain all : SetOp) :
      FollowsAt v.marks (Here (.keyword k)) 0 (fun _ => 0) (some <$> setOp.variant plain all) := by
    refine FollowsAt.map (follows_pass (v.idle_keyword k hk) ?_)
    refine follows_ifAccept (v.idle_keyword .ALL (by decide)) fun every => ?_
    split
    · exact idles_pure _
    · exact follows_ifAccept (v.idle_keyword .DISTINCT (by decide)) fun _ => idles_pure _
  refine follows_kind fun k => ?_
  split
  · exact variant (by decide) .union .unionAll
  · exact variant (by decide) .intersect .intersectAll
  · exact variant (by decide) .except .exceptAll
  · exact idles_pure _

theorem follows_collation : Follows v.marks v.collation collation := by
  have word {k : TokenKind} {s : String} (h : k = .string s) :
      FollowsAt v.marks (Here k) 0 v.collation (do advance; return s) :=
    follows_worth (by simp [h]) (fun w ws kind => v.collation_le w ws s (.inl (kind.trans h)))
      (follows_pure (zero_add _).le)
  refine follows_kind fun k => ?_
  split
  · exact word rfl
  · intro s x s' _ closed run
    obtain ⟨calls, rfl⟩ := run_name run
    refine ⟨?_, closed.next⟩
    rw [zero_add, Cursor.marks, closed.words_eq rfl calls.ne_eof]
    exact v.collation_le _ _ _ (.inr calls)

theorem idles_sortOrder : Idles v.marks sortOrder := by
  refine follows_ifAccept (v.idle_keyword .DESC (by decide)) fun descending => ?_
  split
  · exact idles_pure _
  · exact follows_ifAccept (v.idle_keyword .ASC (by decide)) fun _ => idles_pure _

/-- What the bounding clauses of a query are worth. -/
noncomputable def boundsWorth (b : Bounds) : WithTop N :=
  OrderItem.worthAll v.toWeights b.orderBy +
    Worth.either (Expr.worthOption v.toWeights b.limit) (Expr.worthOption v.toWeights b.offset)

omit [AddLeftMono N] [AddRightMono N] in
/-- A query without bounding clauses is worth, with some in place, what those are besides. -/
theorem worth_withBounds {q : Query} (h : q.isBounded = false) (b : Bounds) :
    (withBounds b q).worth v.toWeights = q.worth v.toWeights + v.boundsWorth b := by
  cases q with
  | select s =>
    obtain ⟨distinct, distinctOn, columns, source, condition, groupBy, having, orderBy, limit,
      offset⟩ := s
    obtain ⟨rfl, rfl, rfl⟩ : orderBy = [] ∧ limit = none ∧ offset = none := by
      simpa [Query.isBounded, Select.isBounded, and_assoc] using h
    simp [withBounds, boundsWorth, Query.worth, Select.worth, OrderItem.worthAll, Expr.worthOption,
      add_assoc]
  | compound c =>
    obtain ⟨op, branches, orderBy, limit, offset⟩ := c
    obtain ⟨rfl, rfl, rfl⟩ : orderBy = [] ∧ limit = none ∧ offset = none := by
      simpa [Query.isBounded, Compound.isBounded, and_assoc] using h
    simp [withBounds, boundsWorth, Query.worth, Compound.worth, OrderItem.worthAll,
      Expr.worthOption, add_assoc]

omit [AddLeftMono N] [AddRightMono N] in
/-- A single branch is worth what the chain is. -/
theorem worth_reduce (c : Compound) : c.reduce.worth v.toWeights = c.worth v.toWeights := by
  obtain ⟨op, branches, orderBy, limit, offset⟩ := c
  unfold Compound.reduce
  split
  · rename_i only honly
    cases honly
    split
    · rw [Query.worth]
    · rename_i unbounded
      obtain ⟨rfl, rfl, rfl⟩ : orderBy = [] ∧ limit = none ∧ offset = none := by
        simpa [Compound.isBounded, and_assoc] using unbounded
      simp [Compound.worth, Query.worthAll, OrderItem.worthAll, Expr.worthOption]
  · rw [Query.worth]

omit [AddLeftMono N] [AddRightMono N] in
/-- One more branch behind a chain without bounding clauses. -/
theorem worth_addBranch {chain : Compound} (h : chain.isBounded = false) (op : SetOp) (q : Query) :
    (addBranch chain op q).worth v.toWeights = chain.worth v.toWeights + q.worth v.toWeights := by
  obtain ⟨op', branches, orderBy, limit, offset⟩ := chain
  obtain ⟨rfl, rfl, rfl⟩ : orderBy = [] ∧ limit = none ∧ offset = none := by
    simpa [Compound.isBounded, and_assoc] using h
  unfold addBranch
  split
  · simp [Compound.worth, Query.worthAll_eq_sum, OrderItem.worthAll, Expr.worthOption]
  · simp [Compound.worth, Query.worthAll, OrderItem.worthAll, Expr.worthOption, Query.worth,
      Compound.ofBranches]

omit [Preorder N] [AddLeftMono N] [AddRightMono N] v in
theorem isBounded_addBranch {chain : Compound} (h : chain.isBounded = false) (op : SetOp)
    (q : Query) : (addBranch chain op q).isBounded = false := by
  unfold addBranch
  split
  · exact h
  · rfl

section Nested

variable {r : Nested} (hr : v.Reaches r)

include hr

theorem follows_column : Follows v.marks (Column.worth v.toWeights) (column r) := by
  refine (hr.expr 0).bind fun e => ?_
  split
  · exact follows_pure (by simp [Column.worth])
  · exact v.follows_label.bind fun label => follows_pure (by simp [Column.worth])

theorem follows_target : Follows v.marks (Target.worth v.toWeights) (target r) := by
  have named (rows : TableSource) : FollowsOn v.marks (rows.worth v.toWeights)
      (Target.worth v.toWeights) (do return { rows, label := ← label : Target }) :=
    v.follows_label.bind fun label => follows_pure le_rfl
  have subquery : Follows v.marks (TableSource.worth v.toWeights)
      (TableSource.subquery <$> parenthesized r.query) :=
    (v.follows_inParens hr.query).mapTo fun q => le_rfl
  have table : Follows v.marks (TableSource.worth v.toWeights)
      (TableSource.table <$> qualifiedName "table name") :=
    (v.follows_tableName _).mapTo fun i => le_rfl
  refine follows_isAt (.of ?_) ?_
  · exact subquery.seq named
  · exact table.seq named

theorem follows_joinCondition (k : JoinKind) :
    Follows v.marks (JoinCondition.worth v.toWeights) (joinCondition r k) := by
  unfold joinCondition
  split
  · exact follows_pure le_rfl
  · refine follows_ifAccept (v.idle_keyword .ON (by decide)) fun on => ?_
    split
    · exact (hr.expr 0).bind fun e => follows_pure (zero_add _).le
    · refine follows_ifAccept (v.idle_keyword .USING (by decide)) fun «using» => ?_
      split
      · exact (v.follows_inParens v.follows_columnNames).bind fun names =>
          follows_pure (zero_add _).le
      · exact follows_pure le_rfl

theorem follows_joinStep : ∀ s, FollowsStep v.marks (FromClause.worth v.toWeights) (joinStep r) s := by
  refine fun c => v.follows_joinKind.bind fun kind => ?_
  cases kind with
  | none => exact follows_pure (add_zero _).le
  | some kind =>
    refine (follows_target v hr).bind fun t => (follows_joinCondition v hr kind).bind fun on =>
      follows_pure ?_
    have pushed := FromClause.worth_push v.toWeights c t ⟨kind, c.targets.length, on⟩
    rw [← add_assoc, ← add_assoc] at pushed
    exact pushed.ge

theorem follows_fromClause : Follows v.marks (FromClause.worth v.toWeights) (fromClause r) := by
  refine (follows_target v hr).seq fun t => ?_
  rw [← FromClause.worth_single]
  exact follows_repeatStep (follows_joinStep v hr) _

theorem follows_distinctClause :
    Follows v.marks (fun x => Expr.worthOption v.toWeights x.2) (distinctClause r) := by
  refine follows_ifAccept (v.idle_keyword .DISTINCT (by decide)) fun distinct => ?_
  split
  · have on : Follows v.marks (Expr.worthOption v.toWeights)
        (afterWord .ON (parenthesized (r.expr 0))) := by
      refine follows_afterWord (v.idle_keyword .ON (by decide)) (by rw [Expr.worthOption]) ?_
      exact (v.follows_inParens (hr.expr 0)).as fun e => by rw [Expr.worthOption]
    exact on.seq fun on => follows_pure le_rfl
  · exact follows_ifAccept (v.idle_keyword .ALL (by decide)) fun _ =>
      follows_pure (by rw [Expr.worthOption])

theorem follows_whereClause :
    Follows v.marks (Expr.worthOption v.toWeights) (whereClause r) :=
  follows_optional v hr (by decide) 0

theorem follows_selectCore :
    Follows v.marks (fun s => s.worth v.toWeights) (selectCore r) := by
  have source : Follows v.marks (FromClause.worthOption v.toWeights)
      (afterWord .FROM (fromClause r)) := by
    refine follows_afterWord (v.idle_keyword .FROM (by decide)) (by rw [FromClause.worthOption]) ?_
    refine (follows_fromClause v hr).as fun f => ?_
    obtain ⟨targets, joins⟩ := f
    rw [FromClause.worthOption, FromClause.worth]
  have group : Follows v.marks (fun o => Expr.worthAll v.toWeights (o.getD []))
      (afterWord .GROUP (do word .BY; expressions r)) := by
    refine follows_afterWord (v.idle_keyword .GROUP (by decide)) (by simp [Expr.worthAll]) ?_
    exact follows_word (v.idle_keyword .BY (by decide)) (follows_expressions v hr)
  refine follows_word (v.idle_keyword .SELECT (by decide)) ?_
  refine (follows_distinctClause v hr).bind fun distinctOn => ?_
  refine (v.follows_commas (follows_column v hr)).bind fun columns => source.bind fun source => ?_
  refine (follows_whereClause v hr).bind fun condition => group.bind fun groupBy => ?_
  refine (follows_optional v hr (by decide) 0).bind fun having => follows_pure ?_
  simp [Select.worth, Column.worthAll_eq_sum, OrderItem.worthAll, Expr.worthOption]

theorem follows_orderItem : Follows v.marks (OrderItem.worth v.toWeights) (orderItem r) := by
  have collation : Follows v.marks v.collationOption (afterWord .COLLATE collation) :=
    follows_afterWord (v.idle_keyword .COLLATE (by decide)) v.collationOption_none.ge
      (v.follows_collation.as fun c => (v.collationOption_some c).ge)
  exact (hr.expr 0).bind fun e => collation.bind fun c => v.idles_sortOrder.skip fun order =>
    follows_pure (by simp [OrderItem.worth])

theorem follows_limitClause :
    Follows v.marks (fun x => Worth.either (Expr.worthOption v.toWeights x.1)
      (Expr.worthOption v.toWeights x.2)) (limitClause r) := by
  refine follows_ifAccept (v.idle_keyword .LIMIT (by decide)) fun limited => ?_
  split
  · refine (hr.expr 0).bind fun first => follows_ifAccept (v.idle_punct .comma (by decide)
      (by decide)) fun comma => ?_
    split
    · refine (hr.expr 0).bind fun second => follows_pure ?_
      simpa [Expr.worthOption] using Worth.le_either_swap _ _
    · exact follows_pure (by simp [Expr.worthOption])
  · exact follows_pure (by simp [Expr.worthOption])

theorem follows_bounds : Follows v.marks v.boundsWorth (bounds r) := by
  have order : Follows v.marks (fun o => OrderItem.worthAll v.toWeights (o.getD []))
      (afterWord .ORDER (do word .BY; commaSep (orderItem r))) := by
    refine follows_afterWord (v.idle_keyword .ORDER (by decide)) (by simp [OrderItem.worthAll]) ?_
    refine follows_word (v.idle_keyword .BY (by decide)) ?_
    exact (v.follows_commas (follows_orderItem v hr)).as
      fun os => (OrderItem.worthAll_eq_sum _ os).ge
  refine order.bind fun orderBy => (follows_limitClause v hr).bind fun limited => ?_
  obtain ⟨limit, offset⟩ := limited
  cases offset with
  | none =>
    refine (follows_optional v hr (by decide) 0).bind fun offset => follows_pure ?_
    simp only [zero_add, boundsWorth, Expr.worthOption, Worth.either_zero_right, add_assoc]
    exact add_le_add_right (Worth.le_either _ _) _
  | some offset => exact follows_pure (by simp [boundsWorth])

theorem follows_queryTerm : Follows v.marks (Query.worth v.toWeights) (queryTerm r) := by
  refine follows_isAt (.of (v.follows_inParens hr.query)) ?_
  exact (follows_selectCore v hr).mapTo fun s => by rw [Query.worth]

theorem follows_branchStep {chain : Compound} (h : chain.isBounded = false) :
    FollowsStep v.marks (Compound.worth v.toWeights) (branchStep r) chain := by
  refine v.idles_setOp.skip fun op => ?_
  cases op with
  | none => exact follows_pure le_rfl
  | some op => exact (follows_queryTerm v hr).bind fun q =>
      follows_pure (v.worth_addBranch h op q).ge

omit hr [AddMonoid N] [Preorder N] [AddLeftMono N] [AddRightMono N] v in
theorem branchStep_unbounded {chain : Compound} (h : chain.isBounded = false) :
    Yields (fun o => ∀ c ∈ o, c.isBounded = false) (branchStep r chain) := by
  refine yields_after fun op => ?_
  cases op with
  | none => exact yields_none
  | some op =>
    refine yields_after fun q => yields_pure fun c hc => ?_
    cases hc
    exact isBounded_addBranch h op q

theorem follows_queryBody : Follows v.marks (Query.worth v.toWeights) (queryBody r) := by
  refine (follows_queryTerm v hr).seq fun first => ?_
  have single : (Compound.ofBranches .union [first]).worth v.toWeights =
      first.worth v.toWeights := by
    simp [Compound.ofBranches, Compound.worth, Query.worthAll, OrderItem.worthAll,
      Expr.worthOption]
  rw [← single]
  refine (follows_repeatKept (I := fun c => c.isBounded = false)
    (fun _ h => follows_branchStep v hr h) (fun _ h => branchStep_unbounded h) rfl).seq fun c => ?_
  dsimp only
  split
  · exact follows_pure (v.worth_reduce c).ge
  · rename_i unbounded
    refine (follows_bounds v hr).bind fun b => follows_pure ?_
    rw [v.worth_withBounds (by simpa using unbounded), worth_reduce]

end Nested

/-- However deep expressions and queries may nest, they follow their text. -/
theorem reaches_levels (limit levels : Nat) :
    v.Reaches ⟨expression limit levels, query limit levels⟩ := by
  induction levels with
  | zero => exact ⟨fun _ => follows_failWith _, follows_failWith _⟩
  | succ levels ih =>
    exact ⟨fun least => follows_expressionBody v ih least, follows_queryBody v ih⟩

/-! ## Statements -/

theorem idles_conflictClause : Idles v.marks conflictClause := by
  refine follows_afterWord (v.idle_keyword .OR (by decide)) le_rfl (follows_kind fun k => ?_)
  split
  · exact follows_pass (v.idle_keyword .ROLLBACK (by decide)) (idles_pure _)
  · exact follows_pass (v.idle_keyword .ABORT (by decide)) (idles_pure _)
  · exact follows_pass (v.idle_keyword .REPLACE (by decide)) (idles_pure _)
  · exact follows_pass (v.idle_keyword .FAIL (by decide)) (idles_pure _)
  · exact follows_pass (v.idle_keyword .IGNORE (by decide)) (idles_pure _)
  · exact follows_fail _

theorem follows_insertColumns : Follows v.marks v.columns insertColumns := by
  refine follows_isAt (follows_nextKind fun behind => ?_) (follows_nextKind fun behind => ?_)
  · split
    · exact .of (v.follows_inParens v.follows_columnNames)
    · exact follows_pure le_rfl
  · exact follows_pure le_rfl

section Nested

variable {r : Nested} (hr : v.Reaches r)

include hr

theorem follows_insertSource :
    Follows v.marks (InsertSource.worth v.toWeights) (insertSource r) := by
  refine follows_kind fun k => ?_
  split
  · refine follows_pass (v.idle_keyword .VALUES (by decide)) ?_
    exact (v.follows_commas (v.follows_inParens (follows_expressions v hr))).mapTo
      fun rows => le_rfl
  · exact follows_pass (v.idle_keyword .DEFAULT (by decide))
      (follows_word (v.idle_keyword .VALUES (by decide)) (follows_pure le_rfl))
  · exact .of (hr.query.mapTo fun q => le_rfl)
  · exact .of (hr.query.mapTo fun q => le_rfl)
  · exact follows_fail _

theorem follows_insert : Follows v.marks (fun i => (Body.insert i).worth v.toWeights) (insert r) := by
  have tail (onConflict : Option String) :
      Follows v.marks (fun i => (Body.insert i).worth v.toWeights) (do
        word .INTO
        let table ← qualifiedName "table name"
        let columns ← insertColumns
        return { table, columns, source := ← insertSource r, onConflict : Insert }) :=
    follows_word (v.idle_keyword .INTO (by decide)) ((v.follows_tableName _).bind fun table =>
      v.follows_insertColumns.bind fun columns => (follows_insertSource v hr).bind fun source =>
        follows_pure (by simp [Body.worth]))
  refine follows_ifAccept (v.idle_keyword .REPLACE (by decide)) fun replace => ?_
  split
  · exact (idles_pure _).skip tail
  · exact follows_word (v.idle_keyword .INSERT (by decide)) (v.idles_conflictClause.skip tail)

theorem follows_assignment : Follows v.marks
    (fun a => v.assigned a.column + a.value.worth v.toWeights) (assignment r) := by
  refine (v.follows_qualifiedName _ v.assigned_le).bind fun column => ?_
  exact follows_sign (v.idle_punct .eq (by decide) (by decide)) ((hr.expr 0).bind fun e =>
    follows_pure (by simp [Identifier.dotted]))

theorem follows_update :
    Follows v.marks (fun u => (Body.update u).worth v.toWeights) (update r) :=
  follows_word (v.idle_keyword .UPDATE (by decide)) (v.idles_conflictClause.skip fun _ =>
    (v.follows_tableName _).bind fun _ => follows_word (v.idle_keyword .SET (by decide))
      ((v.follows_commas (follows_assignment v hr)).bind fun _ =>
        (follows_whereClause v hr).bind fun _ => follows_pure (by simp [Body.worth])))

theorem follows_delete :
    Follows v.marks (fun d => (Body.delete d).worth v.toWeights) (delete r) :=
  follows_word (v.idle_keyword .DELETE (by decide))
    (follows_word (v.idle_keyword .FROM (by decide)) ((v.follows_tableName _).bind fun _ =>
      (follows_whereClause v hr).bind fun _ => follows_pure (by simp [Body.worth])))

end Nested

/-! ## Commands about transactions -/

theorem idles_transactionWord : Idles v.marks transactionWord := by
  refine follows_kind fun k => ?_
  split
  · exact idles_advance (v.idle_keyword .TRANSACTION (by decide))
  · exact idles_advance (v.idle_keyword .WORK (by decide))
  · exact idles_pure _

omit [AddLeftMono N] in
theorem follows_transactionName : Follows v.marks v.nameOption transactionName := by
  refine follows_kind fun k => ?_
  split
  · exact .of (v.follows_someName _)
  · split
    · exact follows_pure v.nameOption_none.ge
    · exact .of (v.follows_someName _)
  · exact follows_pure v.nameOption_none.ge

theorem idles_isolationLevel : Idles v.marks isolationLevel := by
  refine follows_kind fun k => ?_
  split
  · exact follows_pass (v.idle_keyword .SERIALIZABLE (by decide)) (idles_pure _)
  · exact follows_pass (v.idle_keyword .REPEATABLE (by decide))
      (follows_word (v.idle_keyword .READ (by decide)) (idles_pure _))
  · refine follows_pass (v.idle_keyword .READ (by decide)) (follows_kind fun k => ?_)
    split
    · exact follows_pass (v.idle_keyword .COMMITTED (by decide)) (idles_pure _)
    · exact follows_pass (v.idle_keyword .UNCOMMITTED (by decide)) (idles_pure _)
    · exact follows_fail _
  · exact follows_fail _

theorem idles_accessMode : Idles v.marks accessMode := by
  refine follows_kind fun k => ?_
  split
  · exact follows_pass (v.idle_keyword .ONLY (by decide)) (idles_pure _)
  · exact follows_pass (v.idle_keyword .WRITE (by decide)) (idles_pure _)
  · exact follows_fail _

theorem idles_lockingMode : Idles v.marks lockingMode := by
  refine follows_kind fun k => ?_
  split
  · exact follows_pass (v.idle_keyword .DEFERRED (by decide)) (idles_pure _)
  · exact follows_pass (v.idle_keyword .IMMEDIATE (by decide)) (idles_pure _)
  · exact follows_pass (v.idle_keyword .EXCLUSIVE (by decide)) (idles_pure _)
  · exact idles_pure _

/-- An option changes neither what a command does nor its name. -/
theorem follows_transactionOption :
    ∀ t, FollowsStep v.marks (Transaction.worth v.toWeights) transactionOption t := by
  have comma : Idle v.marks (.punct .comma) := v.idle_punct .comma (by decide) (by decide)
  refine fun t => follows_ifAccept (v.idle_keyword .ISOLATION (by decide)) fun isolation => ?_
  split
  · exact follows_word (v.idle_keyword .LEVEL (by decide)) (v.idles_isolationLevel.skip fun level =>
      follows_ifAccept comma fun _ => follows_pure le_rfl)
  · refine follows_ifAccept (v.idle_keyword .READ (by decide)) fun read => ?_
    split
    · exact v.idles_accessMode.skip fun mode => follows_ifAccept comma fun _ => follows_pure le_rfl
    · exact follows_pure le_rfl

theorem follows_beginTail : Follows v.marks (Transaction.worth v.toWeights) beginTail := by
  refine v.idles_lockingMode.skip fun mode => v.idles_transactionWord.skip fun _ => ?_
  refine (v.follows_transactionName.as fun name => ?_).seq fun name =>
    follows_repeatStep v.follows_transactionOption { kind := .begin, name, isolation := none, mode }
  exact Transaction.nameOption_le_worth _ { kind := .begin, name, isolation := none, mode }

theorem follows_startTail : Follows v.marks (Transaction.worth v.toWeights) startTail := by
  refine follows_word (v.idle_keyword .TRANSACTION (by decide)) ?_
  have unnamed : 0 ≤ (Transaction.plain .begin).worth v.toWeights :=
    Transaction.nameOption_le_worth v.toWeights (.plain .begin)
  intro s t s' here closed run
  obtain ⟨held, closed'⟩ := follows_repeatStep v.follows_transactionOption _ s t s' here closed run
  exact ⟨(add_le_add_left unnamed _).trans held, closed'⟩

omit [AddLeftMono N] in
/-- A command with the name behind it. -/
theorem follows_plain {p : Parse String} (kind : TransactionKind) (hp : Follows v.marks v.name p) :
    Follows v.marks (Transaction.worth v.toWeights) (do return .plain kind (some (← p))) :=
  hp.seq fun name => follows_pure
    ((v.nameOption_some name).ge.trans (Transaction.nameOption_le_worth _ (.plain kind (some name))))

omit [AddLeftMono N] in
/-- A command with the name behind it, if one stands there. -/
theorem follows_plainOption (kind : TransactionKind) : Follows v.marks
    (Transaction.worth v.toWeights) (do return .plain kind (← transactionName)) :=
  v.follows_transactionName.seq fun name => follows_pure
    (Transaction.nameOption_le_worth _ (.plain kind name))

theorem follows_commitTail : Follows v.marks (Transaction.worth v.toWeights) commitTail :=
  v.idles_transactionWord.skip fun _ => v.follows_plainOption .commit

theorem follows_rollbackTail : Follows v.marks (Transaction.worth v.toWeights) rollbackTail := by
  refine v.idles_transactionWord.skip fun _ => ?_
  refine follows_ifAccept (v.idle_keyword .TO (by decide)) fun savepoint => ?_
  split
  · exact follows_ifAccept (v.idle_keyword .SAVEPOINT (by decide)) fun _ =>
      v.follows_plain .rollbackSavepoint (v.follows_name _)
  · exact v.follows_plainOption .rollback

omit [AddLeftMono N] in
theorem follows_savepointTail : Follows v.marks (Transaction.worth v.toWeights) savepointTail :=
  v.follows_plain .savepoint (v.follows_name _)

theorem follows_releaseTail : Follows v.marks (Transaction.worth v.toWeights) releaseTail :=
  follows_ifAccept (v.idle_keyword .SAVEPOINT (by decide)) fun _ =>
    v.follows_plain .releaseSavepoint (v.follows_name _)

theorem follows_body {r : Nested} (hr : v.Reaches r) :
    Follows v.marks (Body.worth v.toWeights) (body r) := by
  have query : Follows v.marks (Body.worth v.toWeights) (Body.ofQuery <$> r.query) :=
    hr.query.mapTo fun q => by cases q <;> simp [Body.ofQuery, Body.worth, Query.worth]
  have command {p : Parse Transaction} (hp : Follows v.marks (Transaction.worth v.toWeights) p) :
      Follows v.marks (Body.worth v.toWeights) (Body.transaction <$> p) :=
    hp.mapTo fun t => le_rfl
  refine follows_kind fun k => ?_
  split
  · exact .of query
  · exact .of query
  · exact .of (follows_insert v hr).map
  · exact .of (follows_insert v hr).map
  · exact .of (follows_update v hr).map
  · exact .of (follows_delete v hr).map
  · exact follows_pass (v.idle_keyword .BEGIN (by decide)) (command v.follows_beginTail)
  · exact follows_pass (v.idle_keyword .START (by decide)) (command v.follows_startTail)
  · exact follows_pass (v.idle_keyword .COMMIT (by decide)) (command v.follows_commitTail)
  · exact follows_pass (v.idle_keyword .END (by decide)) (command v.follows_commitTail)
  · exact follows_pass (v.idle_keyword .ROLLBACK (by decide)) (command v.follows_rollbackTail)
  · exact follows_pass (v.idle_keyword .SAVEPOINT (by decide))
      (command v.follows_savepointTail)
  · exact follows_pass (v.idle_keyword .RELEASE (by decide)) (command v.follows_releaseTail)
  · exact follows_fail _

theorem follows_statement (limit : Nat) :
    Follows v.marks (Body.worth v.toWeights) (statement limit) := by
  refine (follows_body v (v.reaches_levels limit limit)).seq fun b => ?_
  refine follows_ifAccept (v.idle_punct .semicolon (by decide) (by decide)) fun _ => ?_
  exact follows_isAt (follows_pure le_rfl) (follows_fail_bind _)

end Marking

variable [AddLeftMono N] [AddRightMono N]

/-- What the words of a statement are worth, its tree is. -/
theorem Body.marks_le_worth {limit : Nat} {ts : List Token} {b : Body} (closed : Token.Closed ts)
    (h : ofTokens limit ts = .ok b) :
    ↑(v.marks (ts.map Token.toWord)) ≤ b.worth v.toWeights := by
  cases ts with
  | nil => cases closed
  | cons t ts =>
    unfold ofTokens at h
    cases run : (statement limit).run (Cursor.ofTokens (t :: ts)) with
    | error e =>
      rw [run] at h
      cases h
    | ok result =>
      obtain ⟨b', s⟩ := result
      rw [run] at h
      cases h
      obtain ⟨held, closed'⟩ :=
        v.follows_statement limit (Cursor.ofTokens (t :: ts)) b' s trivial closed run
      have last : s.following = [] := by
        unfold Cursor.Closed Token.Closed at closed'
        rwa [if_pos (statement_ends run)] at closed'
      have nothing : s.marks v.marks ≤ 0 := by
        rw [Cursor.marks, Cursor.words, last]
        exact WithTop.coe_le_coe.2 ((v.idle_eof _ _ (statement_ends run)).trans v.marks_nil)
      rw [zero_add] at held
      exact (held.trans (add_le_add_right nothing _)).trans (add_zero _).le

end BoundSql
