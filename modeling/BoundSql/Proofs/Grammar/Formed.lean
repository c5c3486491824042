import BoundSql.Proofs.Grammar.Builds

/-!
# The grammar keeps the rules about shape

Each rule of the grammar yields trees that are formed if the trees one level deeper are. Tokens that
are read as a statement can therefore break no rule about its shape but those about widths:
`Body.check_ofTokens`.
-/

namespace BoundSql

open Parse

/-- An operator that takes up further operands accepts one more. -/
theorem Operator.acceptsOperands_succ {op : Operator} {n : Nat} (h : op.flattens = true)
    (accepts : op.acceptsOperands n = true) : op.acceptsOperands (n + 1) = true := by
  cases op with
  | and | or | concat | plus | star =>
    simp only [acceptsOperands, arity, decide_eq_true_eq] at accepts ⊢
    omega
  | _ => cases h

namespace Grammar

/-- All trees that the grammar builds of formed trees are formed. -/
theorem builds_formed {T : Token → Prop} :
    Builds T Expr.Formed Expr.Formed Query.Formed Query.Formed where
  literal := Expr.formed_literal
  name := Expr.formed_name
  param := Expr.formed_param
  wildcard := Expr.formed_wildcard
  deeper he := he
  call _ hes := (Expr.formed_call _ _).2 hes
  existence hq := by simpa using hq
  subquery hq := Expr.formed_subquery.2 hq
  cast _ he := (Expr.formed_cast _).2 he
  cases some hbase harms hotherwise := Expr.formed_cases.2 ⟨some, hbase, harms, hotherwise⟩
  signed sign _ he := by
    refine (Expr.formed_operation _).2 ⟨?_, List.forall_mem_singleton.2 he⟩
    rcases sign with rfl | rfl | rfl <;> rfl
  nullTest test hlhs := by
    refine (Expr.formed_operation _).2 ⟨?_, List.forall_mem_singleton.2 hlhs⟩
    rcases test with rfl | rfl <;> rfl
  negated _ he := (Expr.formed_operation _).2 ⟨rfl, List.forall_mem_singleton.2 he⟩
  operation _ accepts _ hlhs hes :=
    (Expr.formed_operation _).2 ⟨accepts, List.forall_mem_cons.2 ⟨hlhs, hes⟩⟩
  membership member hlhs hq := by
    refine (Expr.formed_operation _).2 ⟨?_, by simpa using ⟨hlhs, hq⟩⟩
    rcases member with rfl | rfl <;> rfl
  chained flattens hes he := by
    obtain ⟨counted, below⟩ := (Expr.formed_operation _).1 hes
    rw [Expr.formed_operation, List.length_append, List.forall_mem_append]
    exact ⟨Operator.acceptsOperands_succ flattens counted, below, List.forall_mem_singleton.2 he⟩
  deeperQuery hq := hq
  select here parts queries := Query.formed_iff.2 ⟨here, parts, queries⟩
  compound enough hqs := Query.formed_iff.2 ⟨enough, fun e he => absurd he List.not_mem_nil, hqs⟩
  bounded hq hb := by
    obtain ⟨here, parts, queries⟩ := Query.formed_iff.1 hq
    refine Query.formed_iff.2 ⟨formedHere_withBounds.2 here, parts_withBounds parts hb, ?_⟩
    rw [queries_withBounds]
    exact queries

theorem forms_statement (limit : Nat) : Yields Body.Formed (statement limit) := by
  have hr : (nested limit).Gives (fun _ => True) Expr.Formed Query.Formed :=
    gives_levels (fun _ => builds_formed) limit limit
  exact yields_statement ((builds_body hr).mono fun _ hb => ⟨hb.parts, hb.queries, hb.assignments⟩)

end Grammar

/-- What tokens are read as is formed. -/
theorem Body.formed_ofTokens {limit : Nat} {ts : List Token} {b : Body}
    (read : Body.ofTokens limit ts = .ok b) : b.Formed := by
  rw [Body.ofTokens] at read
  cases run : (Grammar.statement limit).run (Cursor.ofTokens ts) with
  | error e =>
    rw [run] at read
    cases read
  | ok result =>
    rw [run] at read
    cases read
    exact (Grammar.forms_statement limit).of_run run

/-- What tokens are read as breaks no rule about its shape but that the rows of VALUES, the columns
of INSERT or the branches of a compound are not of one width. -/
theorem Body.check_ofTokens {limit : Nat} {ts : List Token} {b : Body}
    (read : Body.ofTokens limit ts = .ok b) :
    b.check = .ok () ∨
      (∃ row values expected, b.check = .error (.rowWidth row values expected)) ∨
      (∃ listed returned, b.check = .error (.insertWidth listed returned)) ∨
      ∃ op first other, b.check = .error (.branchWidths op first other) := by
  have fits := Body.fits_check (Body.formed_ofTokens read)
  cases checked : b.check with
  | ok _ => exact .inl rfl
  | error v =>
    have width : v.IsWidth := fits v checked
    cases v with
    | rowWidth row values expected => exact .inr (.inl ⟨row, values, expected, rfl⟩)
    | insertWidth listed returned => exact .inr (.inr (.inl ⟨listed, returned, rfl⟩))
    | branchWidths op first other => exact .inr (.inr (.inr ⟨op, first, other, rfl⟩))
    | _ => exact width.elim

/-- The branches of `SELECT 1 UNION SELECT 1, 1` are of two widths, and this is the rule that is
broken. -/
theorem Body.check_ofTokens_union :
    let token (k : TokenKind) : Token := ⟨k, [], [], .start⟩
    let ts := [.keyword .SELECT, .integer 1, .keyword .UNION, .keyword .SELECT, .integer 1,
      .punct .comma, .integer 1, .eof].map token
    let one : Column := ⟨.literal (.integer 1), none⟩
    let select (columns : List Column) : Query :=
      .select ⟨false, none, columns, none, none, [], none, [], none, none⟩
    let b := Body.compound (.ofBranches .union [select [one], select [one, one]])
    Body.ofTokens 2 ts = .ok b ∧
      ∃ op first other, b.check = .error (.branchWidths op first other) := by
  intro token ts one select b
  have read : Body.ofTokens 2 ts = .ok b := rfl
  have broken : b.check = .error (.branchWidths .union 1 2) := rfl
  rcases check_ofTokens read with ok | ⟨_, _, _, rows⟩ | ⟨_, _, columns⟩ | branches
  · cases broken.symm.trans ok
  · cases broken.symm.trans rows
  · cases broken.symm.trans columns
  · exact ⟨read, branches⟩

end BoundSql
