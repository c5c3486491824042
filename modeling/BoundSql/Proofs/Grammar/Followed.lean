import BoundSql.Proofs.Grammar.Collected
import BoundSql.Proofs.Grammar.Marking

/-!
# Expressions follow their text

Each rule of the grammar for expressions moves on over words that are worth no more than the tree it
makes of them.
-/

namespace BoundSql

open Parse Cursor Grammar

theorem Word.OpensType.ne_eof {w : Word} (h : w.OpensType) : w.kind ≠ .eof := by
  rcases h with ⟨s, kind⟩ | ⟨k, kind⟩ <;> simp [kind]

variable {N : Type} [AddMonoid N] [Preorder N] (v : Marking N)

namespace Marking

/-! ## Names -/

theorem follows_name (what : String) : Follows v.marks v.name (name what) := by
  intro s x s' _ closed run
  obtain ⟨calls, rfl⟩ := run_name run
  refine ⟨?_, closed.next⟩
  rw [zero_add, Cursor.marks, closed.words_eq rfl calls.ne_eof]
  exact v.name_le _ _ _ calls

/-- A name with its qualifiers, if it is worth what its words are. -/
theorem follows_qualifiedName {c : List String → WithTop N} (what : String)
    (h : ∀ us ws parts, Word.Dotted us parts → ↑(v.marks (us ++ ws)) ≤ c parts + ↑(v.marks ws)) :
    Follows v.marks (fun i => c i.parts) (qualifiedName what) := by
  intro s i s' _ closed run
  obtain ⟨us, dotted, words, closed'⟩ := words_of_qualifiedName closed run
  refine ⟨?_, closed'⟩
  rw [zero_add, Cursor.marks, words]
  exact h us s'.words i.parts dotted

theorem follows_tableName (what : String) :
    Follows v.marks (fun i => v.names i.parts) (qualifiedName what) :=
  v.follows_qualifiedName what v.names_le

variable [AddLeftMono N] [AddRightMono N]

omit [AddLeftMono N] in
theorem follows_someName (what : String) : Follows v.marks v.nameOption (some <$> name what) :=
  (v.follows_name what).mapTo fun x => (v.nameOption_some x).ge

omit [AddLeftMono N] in
theorem follows_label : Follows v.marks v.nameOption Grammar.label := by
  refine follows_accept ?_ (follows_kind fun k => ?_)
  · rintro s x s' ⟨-, here⟩ closed run
    -- The word behind AS is worth something together with it only.
    have behind : ∃ text, x = some text ∧ s' = s.next.next ∧
        (s.next.current.kind = .string text ∨ s.next.current.toWord.Calls false text) := by
      rw [run_advance_bind, if_pos rfl, run_kind_bind] at run
      split at run
      · rename_i text kind
        cases run
        exact ⟨text, rfl, rfl, .inl kind⟩
      · rw [← bind_pure_comp] at run
        obtain ⟨text, s₁, first, rest⟩ := run_bind_eq_ok run
        obtain ⟨calls, rfl⟩ := run_name first
        cases rest
        exact ⟨text, rfl, rfl, .inr calls⟩
    obtain ⟨text, rfl, rfl, kind⟩ := behind
    have more : s.next.current.kind ≠ .eof := by
      rcases kind with kind | calls
      · simp [kind]
      · exact calls.ne_eof
    refine ⟨?_, closed.next.next⟩
    rw [zero_add, Cursor.marks, closed.words_eq here (by simp), closed.next.words_eq rfl more,
      v.nameOption_some]
    exact v.label_le _ _ _ _ here kind
  · split
    · exact .of (v.follows_someName _)
    · split
      · exact follows_pure v.nameOption_none.ge
      · exact .of (v.follows_someName _)
    · exact follows_pure v.nameOption_none.ge

/-! ## Lists and parentheses -/

theorem follows_inParens {α : Type} {before : WithTop N} {d : α → WithTop N} {p : Parse α}
    (hp : FollowsOn v.marks before d p) : FollowsOn v.marks before d (parenthesized p) := by
  refine follows_parenthesized (fun w hw => v.idle_punct w ?_ ?_) hp
  · rcases hw with rfl | rfl <;> decide
  · rcases hw with rfl | rfl <;> decide

theorem follows_commas {α : Type} {d : α → WithTop N} {p : Parse α} (hp : Follows v.marks d p) :
    Follows v.marks (fun xs => (xs.map d).sum) (commaSep p) :=
  follows_commaSep (v.idle_punct .comma (by decide) (by decide)) hp

theorem follows_columnNames : Follows v.marks v.columns columnNames :=
  v.follows_commas (v.follows_name _)

/-! ## Types -/

theorem idles_typeArgument : Idles v.marks typeArgument := by
  refine follows_kind fun k => ?_
  split
  · split
    · exact follows_pass (v.idle_literal _ _ rfl) (idles_pure _)
    · exact follows_failWith _
  · exact follows_fail _

theorem idles_secondTypeWord : Idles v.marks secondTypeWord := by
  refine follows_kind fun k => ?_
  split
  · split
    · rename_i second
      exact follows_pass (v.idle_secondWord _ (by simpa using second)) (idles_pure _)
    · exact follows_pure le_rfl
  · exact follows_pure le_rfl

theorem idles_dataTypeBehind (first : String) : Idles v.marks (dataTypeBehind first) := by
  refine v.idles_secondTypeWord.skip fun second => follows_isAt (.of ?_) (follows_pure le_rfl)
  refine .skip ?_ fun _ => follows_pure le_rfl
  exact v.follows_inParens ((v.follows_commas v.idles_typeArgument).as fun _ => by simp)

/-- A type behind AS or a double colon. -/
theorem follows_dataType {front : TokenKind}
    (hfront : front = .keyword .AS ∨ front = .punct .doubleColon) :
    FollowsAt v.marks (Here front) 0 v.type (advance >>= fun _ => dataType) := by
  intro s x s' here closed run
  rw [run_advance_bind, dataType_eq] at run
  obtain ⟨first, s₁, opened, rest⟩ := run_bind_eq_ok run
  obtain ⟨opens, rfl, rfl⟩ := run_firstTypeWord opened
  obtain ⟨more, args, rfl⟩ := (yields_dataTypeBehind _).of_run rest
  obtain ⟨held, closed'⟩ := v.idles_dataTypeBehind _ _ _ _ trivial closed.next.next rest
  rw [zero_add, zero_add] at held
  refine ⟨?_, closed'⟩
  have worth := v.type_le s.current.toWord s.next.current.toWord s.next.next.words more args
    (hfront.imp here.trans here.trans) opens
  rw [zero_add, Cursor.marks, closed.words_eq here (by rcases hfront with rfl | rfl <;> simp),
    closed.next.words_eq rfl opens.ne_eof]
  exact worth.trans (add_le_add_right held _)

/-! ## Expressions -/

section Nested

variable {r : Nested}

/-- Expressions and queries one level deeper follow their text. -/
structure Reaches (r : Nested) : Prop where
  expr : ∀ least, Follows v.marks (Expr.worth v.toWeights) (r.expr least)
  query : Follows v.marks (Query.worth v.toWeights) r.query

theorem follows_literal {k : TokenKind} {l : Literal} (h : literal? k = some l) :
    FollowsAt v.marks (Here k) 0 (Expr.worth v.toWeights) (literal l) := by
  refine follows_pass (v.idle_literal _ _ h) (follows_kind fun k => ?_)
  split
  · split
    · refine follows_worth (by simp) (fun w ws kind => v.param_le w ws _ (some l) kind) ?_
      exact follows_pure (by simp [Expr.worth])
    · exact follows_pure (by simp [Expr.worth])
  · exact follows_pure (by simp [Expr.worth])

theorem follows_param {k : TokenKind} {p : ParamRef} (h : ∀ w ws, w.kind = k →
    ↑(v.marks (w :: ws)) ≤ v.param p + ↑(v.marks ws)) (more : k ≠ .eof) :
    FollowsAt v.marks (Here k) 0 (Expr.worth v.toWeights) (do advance; return .param p) :=
  follows_worth more h (follows_pure (by simp [Expr.worth]))

/-- A keyword that casts the string behind it. -/
theorem follows_typedLiteral {k : Keyword} {type : DataType} {text : String}
    (typed : typedLiteral? k = some type) :
    FollowsAt v.marks (fun s => Here (.keyword k) s ∧ Here (.string text) s.next) 0
      (Expr.worth v.toWeights) (do advance; return .cast (← literal (.string text)) type) := by
  have ordinary : k.IsOrdinary := by
    unfold typedLiteral? at typed
    split at typed <;> first | decide | cases typed
  refine follows_over (H := Here (.string text)) (v.idle_keyword k ordinary)
    (fun _ here => here.1) (fun _ here => here.2) ?_
  refine (v.follows_literal rfl).bind fun e => follows_pure ?_
  simpa [Expr.worth] using add_le_add_right (v.zero_le_literalType k _ typed) (e.worth v.toWeights)

variable (hr : v.Reaches r)

include hr

theorem follows_expressions :
    Follows v.marks (Expr.worthAll v.toWeights) (expressions r) :=
  (v.follows_commas (hr.expr 0)).as fun es => (Expr.worthAll_eq_sum _ es).ge

theorem follows_call {before : WithTop N} {name : String} (h : before ≤ v.function name) :
    FollowsOn v.marks before (Expr.worth v.toWeights) (call r name) := by
  have arguments (distinct : Bool) : FollowsOn v.marks before (Expr.worth v.toWeights) (do
      if ← isAt (.punct .rightParen) then return Expr.call name distinct []
      else return .call name distinct (← expressions r)) := by
    refine follows_isAt ?_ ?_
    · exact follows_pure (by simpa [Expr.worth, Expr.worthAll] using h)
    · refine .of ((follows_expressions v hr).bind fun es => follows_pure ?_)
      exact add_le_add_left h _
  refine v.follows_inParens (follows_ifAccept (v.idle_keyword .DISTINCT (by decide))
    fun distinct => ?_)
  cases distinct
  · exact follows_ifAccept (v.idle_keyword .ALL (by decide)) fun _ => arguments false
  · exact arguments true

/-- The words of the parts read so far stand in front of what is still to be read. -/
theorem follows_nameFrom (fuel : Nat) {us : List Word} {parts : List String}
    (dotted : Word.Dotted us parts) {s s' : Cursor} {x : Expr} (closed : s.Closed)
    (run : (nameFrom r fuel parts).run s = .ok (x, s')) :
    ↑(v.marks (us ++ s.words)) ≤ x.worth v.toWeights + s'.marks v.marks ∧ s'.Closed := by
  induction fuel generalizing us parts s with
  | zero =>
    cases run
    exact ⟨v.names_le us _ parts dotted, closed⟩
  | succ fuel ih =>
    rw [nameFrom, acceptSign, run_accept_bind] at run
    split at run
    · rename_i point
      rw [if_pos rfl, acceptSign, run_accept_bind] at run
      split at run
      · rename_i star
        cases run
        refine ⟨?_, closed.next.next⟩
        rw [closed.words_eq point (by simp), closed.next.words_eq star (by simp)]
        exact v.wildcard_le us _ _ s.next.next.words parts dotted point star
      · obtain ⟨part, s₁, member, rest⟩ := run_bind_eq_ok run
        obtain ⟨dot, w, point, calls, words, closed'⟩ := words_of_member closed point member
        obtain ⟨held, ended⟩ := ih (dotted.concat point calls) closed' rest
        rw [List.append_assoc] at held
        exact ⟨words ▸ held, ended⟩
    · rw [if_neg Bool.false_ne_true, run_isAt_bind] at run
      split at run
      · obtain ⟨held, ended⟩ := follows_call v hr le_rfl s x s' trivial closed run
        exact ⟨(v.function_le us s.words parts dotted).trans held, ended⟩
      · cases run
        exact ⟨v.names_le us _ parts dotted, closed⟩

theorem follows_nameExpr : Follows v.marks (Expr.worth v.toWeights) (nameExpr r) := by
  intro s x s' _ closed run
  obtain ⟨first, s₁, opened, rest⟩ := run_bind_eq_ok run
  obtain ⟨calls, rfl⟩ := run_name opened
  have held := follows_nameFrom v hr _ (.single calls) closed.next rest
  rwa [zero_add, Cursor.marks, closed.words_eq rfl calls.ne_eof]

theorem follows_castCall : Follows v.marks (Expr.worth v.toWeights) (castCall r) := by
  refine follows_word (v.idle_keyword .CAST (by decide)) (v.follows_inParens ?_)
  refine (hr.expr 0).bind fun e => follows_wordAt ?_
  have type := (v.follows_dataType (.inl rfl)).bind (a := 0 + e.worth v.toWeights)
    fun type => follows_pure (x := Expr.cast e type) (d := Expr.worth v.toWeights)
      (by rw [zero_add, Expr.worth])
  rw [bind_assoc] at type
  exact type

theorem follows_caseArm :
    Follows v.marks (fun o => Expr.worthArms v.toWeights o.toList) (caseArm r) := by
  refine follows_afterWord (v.idle_keyword .WHEN (by decide)) (by simp [Expr.worthArms]) ?_
  exact (hr.expr 0).bind fun w => follows_word (v.idle_keyword .THEN (by decide))
    ((hr.expr 0).bind fun t => follows_pure (by simp [Expr.worthArms]))

omit [AddLeftMono N] in
theorem follows_caseBase : Follows v.marks (Expr.worthOption v.toWeights) (caseBase r) := by
  refine follows_isAt (follows_pure ?_) ((hr.expr 0).mapTo fun e => ?_)
  · rw [Expr.worthOption]
  · rw [Expr.worthOption]

theorem follows_armStep : ∀ s, FollowsStep v.marks (Expr.worthArms v.toWeights) (armStep r) s := by
  refine fun arms => (follows_caseArm v hr).bind fun arm => ?_
  cases arm with
  | none => exact follows_pure (by simp [Expr.worthArms])
  | some arm => exact follows_pure (by simp)

theorem follows_optional {k : Keyword} (hk : k.IsOrdinary) (least : Nat) :
    Follows v.marks (Expr.worthOption v.toWeights) (afterWord k (r.expr least)) := by
  refine follows_afterWord (v.idle_keyword k hk) (by rw [Expr.worthOption]) ?_
  exact (hr.expr least).as fun e => by rw [Expr.worthOption]

theorem follows_caseExpr : Follows v.marks (Expr.worth v.toWeights) (caseExpr r) := by
  refine follows_word (v.idle_keyword .CASE (by decide)) ((follows_caseBase v hr).bind fun base => ?_)
  have several : Follows v.marks (Expr.worthArms v.toWeights) (repeatStep (armStep r) []) := by
    have steps := follows_repeatStep (follows_armStep v hr) []
    rwa [Expr.worthArms] at steps
  refine several.bind fun arms => ?_
  have tail : FollowsOn v.marks
      (0 + Expr.worthOption v.toWeights base + Expr.worthArms v.toWeights arms)
      (Expr.worth v.toWeights) (do
        let otherwise ← afterWord .ELSE (r.expr 0)
        word .END
        return Expr.cases base arms otherwise) :=
    (follows_optional v hr (by decide) 0).bind fun otherwise =>
      follows_word (v.idle_keyword .END (by decide)) (follows_pure (by rw [Expr.worth, zero_add]))
  split
  · exact follows_fail_bind _
  · exact tail

theorem follows_existsCall : Follows v.marks (Expr.worth v.toWeights) (existsCall r) :=
  (v.follows_inParens hr.query).bind fun q => follows_pure (by
    simpa [Expr.worth, Expr.worthAll] using
      add_le_add_left (v.zero_le_function "EXISTS") (q.worth v.toWeights))

theorem follows_grouped : Follows v.marks (Expr.worth v.toWeights) (grouped r) := by
  have closing : Idle v.marks (.punct .rightParen) := v.idle_punct _ (by decide) (by decide)
  refine follows_isAt (.of ?_) ?_
  · exact hr.query.bind fun q => follows_sign closing (follows_pure (by simp [Expr.worth]))
  · exact (hr.expr 0).seq fun e => follows_sign closing (follows_pure le_rfl)

/-- The name of a function that is a keyword besides. -/
theorem follows_keywordCall {k : Keyword} (hk : k = .LEFT ∨ k = .RIGHT) :
    FollowsAt v.marks (fun s => Here (.keyword k) s ∧ Here (.punct .leftParen) s.next) 0
      (Expr.worth v.toWeights) (do
        let t ← current
        advance
        call r t.text) := by
  rintro s x s' ⟨here, behind⟩ closed run
  obtain ⟨held, closed'⟩ := follows_call v hr (v.zero_le_function s.current.text) s.next x s' trivial
    closed.next run
  refine ⟨le_trans ?_ held, closed'⟩
  have kind : s.current.kind = .keyword .LEFT ∨ s.current.kind = .keyword .RIGHT := by
    rcases hk with rfl | rfl
    · exact .inl here
    · exact .inr here
  have worth := v.call_le s.current.toWord s.next.current.toWord s.next.next.words kind behind
  rw [zero_add, zero_add, Cursor.marks, Cursor.marks, closed.words_eq here (by simp),
    closed.next.words_eq behind (by simp)]
  exact WithTop.coe_le_coe.2 worth

theorem follows_keywordExpr {k : Keyword} (hk : literal? (.keyword k) = none) :
    FollowsAt v.marks (Here (.keyword k)) 0 (Expr.worth v.toWeights) (keywordExpr r k) := by
  refine follows_nextKind fun behind => ?_
  split
  · exact follows_keywordCall v hr (.inl rfl)
  · exact follows_keywordCall v hr (.inr rfl)
  · exact v.follows_typedLiteral (by assumption)
  · refine .mono ?_ fun _ here => here.1
    exact follows_pass (v.idle_keyword .DEFAULT (by decide)) (follows_pure (by simp [Expr.worth]))
  · exact .of (follows_caseExpr v hr)
  · exact .of (follows_castCall v hr)
  · refine .mono ?_ fun _ here => here.1
    exact follows_pass (v.idle_keyword .EXISTS (by decide)) (follows_existsCall v hr)
  · split
    · exact follows_fail _
    · exact .of (follows_nameExpr v hr)

theorem follows_primary : Follows v.marks (Expr.worth v.toWeights) (primary r) := by
  refine follows_kind fun k => ?_
  split
  · rename_i literal
    exact v.follows_literal literal
  · rename_i noLiteral
    split
    · exact v.follows_param (fun w ws kind => v.param_le w ws _ none kind) (by simp)
    · exact v.follows_param (fun w ws kind => v.hostParam_le w ws _ kind) (by simp)
    · exact follows_pass (v.idle_punct .star (by decide) (by decide))
        (follows_pure (by simp [Expr.worth]))
    · exact follows_pass (v.idle_punct .leftParen (by decide) (by decide)) (follows_grouped v hr)
    · exact .of (follows_nameExpr v hr)
    · exact follows_keywordExpr v hr noLiteral
    · exact follows_fail _

theorem follows_operand : Follows v.marks (Expr.worth v.toWeights) (operand r) := by
  have prefixed (op : Operator) (least : Nat) : Follows v.marks (Expr.worth v.toWeights) (do
      return Expr.operation op [← r.expr least]) :=
    (hr.expr least).bind fun e => follows_pure (by simp [Expr.worth, Expr.worthAll])
  refine follows_kind fun k => ?_
  split
  · exact follows_pass (v.idle_keyword .NOT (by decide)) (prefixed .not _)
  · exact follows_pass (v.idle_punct .minus (by decide) (by decide)) (prefixed .minus _)
  · exact follows_pass (v.idle_punct .bitNot (by decide) (by decide)) (prefixed .bitNot _)
  · exact follows_pass (v.idle_punct .plus (by decide) (by decide)) (hr.expr _)
  · exact .of (follows_primary v hr)

end Nested

omit [Preorder N] [AddLeftMono N] [AddRightMono N] v in
/-- A combined operation is worth what its sides are. -/
theorem worth_combine (v : Weights N) (op : Operator) (lhs rhs : Expr) :
    (combine op lhs rhs).worth v = lhs.worth v + rhs.worth v := by
  unfold combine
  split
  · split <;> simp [Expr.worth, Expr.worthAll]
  · simp [Expr.worth, Expr.worthAll]

omit [AddLeftMono N] [AddRightMono N] in
theorem idle_ofToken? {k : TokenKind} {form : Infix} (h : Infix.ofToken? k = some form)
    (hform : form ≠ .cast) : Idle v.marks k := by
  unfold Infix.ofToken? at h
  split at h
  · rename_i word
    refine v.idle_keyword word ?_
    unfold Infix.ofKeyword? at h
    split at h <;> first | decide | cases h
  · rename_i sign
    refine v.idle_punct sign ?_ ?_
    · rintro rfl
      cases h
    · rintro rfl
      cases h
      exact hform rfl
  · cases h

theorem eq_doubleColon_of_ofToken? {k : TokenKind} (h : Infix.ofToken? k = some .cast) :
    k = .punct .doubleColon := by
  unfold Infix.ofToken? at h
  split at h
  · rename_i word
    unfold Infix.ofKeyword? at h
    split at h <;> cases h
  · rename_i sign
    unfold Infix.ofPunct? at h
    split at h <;> first | rfl | cases h
  · cases h

section Nested

variable {r : Nested} (hr : v.Reaches r) (lhs : Expr)

include hr

theorem follows_inList (op : Operator) :
    FollowsOn v.marks (lhs.worth v.toWeights) (Expr.worth v.toWeights) (inList r op lhs) := by
  refine v.follows_inParens (follows_isAt (.of ?_) ?_)
  · exact hr.query.bind fun q => follows_pure (by simp [Expr.worth, Expr.worthAll])
  · exact (follows_expressions v hr).bind fun es => follows_pure (by
      simp [Expr.worth, Expr.worthAll])

theorem follows_betweenBounds :
    FollowsOn v.marks (lhs.worth v.toWeights) (Expr.worth v.toWeights) (betweenBounds r lhs) :=
  (hr.expr _).bind fun low => follows_word (v.idle_keyword .AND (by decide))
    ((hr.expr _).bind fun high => follows_pure (by simp [Expr.worth, Expr.worthAll, add_assoc]))

theorem follows_similarPattern :
    FollowsOn v.marks (lhs.worth v.toWeights) (Expr.worth v.toWeights) (similarPattern r lhs) :=
  follows_word (v.idle_keyword .TO (by decide)) ((hr.expr _).bind fun pattern =>
    follows_pure (by simp [Expr.worth, Expr.worthAll]))

theorem follows_negatedTail :
    FollowsOn v.marks (lhs.worth v.toWeights) (Expr.worth v.toWeights) (negatedTail r lhs) := by
  have pattern (op : Operator) :
      FollowsOn v.marks (lhs.worth v.toWeights) (Expr.worth v.toWeights) (do
        return Expr.operation op [lhs, ← r.expr Infix.negated.right]) :=
    (hr.expr _).bind fun e => follows_pure (by simp [Expr.worth, Expr.worthAll])
  refine follows_kind fun k => ?_
  split
  · exact follows_pass (v.idle_keyword .IN (by decide)) (follows_inList v hr lhs .notIn)
  · exact follows_pass (v.idle_keyword .LIKE (by decide)) (pattern .notLike)
  · exact follows_pass (v.idle_keyword .ILIKE (by decide)) (pattern .notIlike)
  · exact follows_pass (v.idle_keyword .BETWEEN (by decide)) ((follows_betweenBounds v hr lhs).seq
      fun e => follows_pure (by simp [Expr.worth, Expr.worthAll]))
  · exact follows_pass (v.idle_keyword .SIMILAR (by decide)) ((follows_similarPattern v hr lhs).seq
      fun e => follows_pure (by simp [Expr.worth, Expr.worthAll]))
  · exact follows_pass (v.idle_keyword .NULL (by decide)) (follows_pure (by
      simp [Expr.worth, Expr.worthAll]))
  · exact follows_fail _

theorem follows_isTail :
    FollowsOn v.marks (lhs.worth v.toWeights) (Expr.worth v.toWeights) (isTail r lhs) := by
  refine follows_ifAccept (v.idle_keyword .NOT (by decide)) fun negated =>
    follows_ifAccept (v.idle_keyword .NULL (by decide)) fun null => ?_
  split
  · exact follows_pure (by simp [Expr.worth, Expr.worthAll])
  · refine (hr.expr _).bind fun e => ?_
    cases negated <;> exact follows_pure (by simp [Expr.worth, Expr.worthAll])

theorem follows_infixTail {form : Infix} (hform : form ≠ .cast) :
    FollowsOn v.marks (lhs.worth v.toWeights) (Expr.worth v.toWeights) (infixTail r lhs form) := by
  cases form with
  | cast => exact absurd rfl hform
  | isNull => exact follows_pure (by simp [Expr.worth, Expr.worthAll])
  | isNotNull => exact follows_pure (by simp [Expr.worth, Expr.worthAll])
  | is => exact follows_isTail v hr lhs
  | negated => exact follows_negatedTail v hr lhs
  | isIn => exact follows_inList v hr lhs .isIn
  | between => exact follows_betweenBounds v hr lhs
  | similar => exact follows_similarPattern v hr lhs
  | binary op =>
    exact (hr.expr _).bind fun e => follows_pure (worth_combine v.toWeights op lhs e).ge

omit hr in
/-- A double colon and the type behind it. -/
theorem follows_infixCast :
    FollowsAt v.marks (Here (.punct .doubleColon)) (lhs.worth v.toWeights)
      (fun o => (o.getD lhs).worth v.toWeights)
      (do advance; some <$> infixTail r lhs .cast) := by
  have type := (v.follows_dataType (.inr rfl)).bind (a := lhs.worth v.toWeights)
    fun type => follows_pure (x := some (Expr.cast lhs type))
      (d := fun o => (o.getD lhs).worth v.toWeights) (by simp [Expr.worth])
  simpa [infixTail] using type

theorem follows_infixStep (least : Nat) :
    ∀ s, FollowsStep v.marks (Expr.worth v.toWeights) (infixStep r least) s := by
  refine fun lhs => follows_kind fun k => ?_
  split
  · exact follows_pure le_rfl
  · rename_i form hform
    split
    · exact follows_pure le_rfl
    · by_cases cast : form = .cast
      · subst cast
        obtain rfl := eq_doubleColon_of_ofToken? hform
        exact v.follows_infixCast lhs
      · exact follows_pass (v.idle_ofToken? hform cast)
          ((follows_infixTail v hr lhs cast).mapTo fun _ => le_rfl)

theorem follows_expressionBody (least : Nat) :
    Follows v.marks (Expr.worth v.toWeights) (expressionBody r least) :=
  (follows_operand v hr).seq fun first => follows_repeatStep (follows_infixStep v hr least) first

end Nested

end Marking

end BoundSql
