import BoundSql.Proofs.RoundTrip.Name
import BoundSql.Proofs.RoundTrip.Whole

/-!
# Chains of operators

Operands with binary operators between them and no parentheses are read to the end of the chain. An
operator takes up what stands in front of it, which binds at least as tightly, and behind it
whatever binds tighter (`Expr.Flat`). That is when operands are written without parentheses, so that
the tree is written as the chain that it was read from.
-/

namespace BoundSql

open Text Token Parse Grammar Phrase Render RenderContext

namespace Operator

/-- The operators that chains consist of. -/
def chained : List Operator :=
  [ and, or, eq, diff, lt, leq, gt, geq, like, notLike, similar, bitOr, bitAnd, leftShift,
    rightShift, plus, minus, concat, star, div, rem ]

variable {op : Operator}

theorem isBetween_of_chained (h : op ∈ chained) : op.IsBetween := by
  revert op
  decide

/-- Every dialect has the operators of chains. -/
theorem plain_of_chained (h : op ∈ chained) :
    op.isIlike = false ∧ op.isRegexp = false ∧ op ≠ .bitNot := by
  revert op
  decide

theorem readIn_of_chained (h : op ∈ chained) (d : Dialect) : op.ReadIn d :=
  .of_plain (plain_of_chained h).2.1 (plain_of_chained h).2.2 d

theorem checkOperator_of_chained (h : op ∈ chained) (r : RenderContext) :
    r.checkOperator op = .ok () := by
  obtain ⟨ilike, regexp, -⟩ := plain_of_chained h
  simp [checkOperator, ilike, regexp]

/-- What stands between operands is written between them. -/
theorem IsBetween.shape_ne (h : op.IsBetween) : op.shape ≠ .membership ∧ op.shape ≠ .range := by
  revert h
  cases op <;> decide

end Operator

/-! ## Operands that an operator puts together -/

section Combine

variable {r : RenderContext} {op : Operator} {lhs rhs : Expr} {p q : Phrase}
  {used used' used'' : List String}

namespace Expr

/-- What an operator puts together is an operation with two operands, or takes up the operands of
the left side. -/
theorem combine_cases (op : Operator) (lhs rhs : Expr) :
    combine op lhs rhs = operation op [lhs, rhs] ∨
      ∃ operands, op.flattens ∧ lhs = operation op operands ∧
        combine op lhs rhs = operation op (operands ++ [rhs]) := by
  unfold combine
  split
  · rename_i op' operands
    split
    · rename_i same
      simp only [Bool.and_eq_true, decide_eq_true_eq] at same
      obtain ⟨flattens, rfl⟩ := same
      exact .inr ⟨operands, flattens, rfl, rfl⟩
    · exact .inl rfl
  · exact .inl rfl

/-- What binds at least as tightly stands in front of an operator without parentheses. -/
theorem needsParens_left {e : Expr} (h : op.power ≤ e.rank) : e.needsParens op false = false := by
  rw [needsParens_eq]
  unfold rank at h
  split
  · rfl
  · rename_i op' outer
    rw [outer] at h
    have loose : ¬op'.precedence < op.precedence := by
      rw [← Operator.power_lt_iff]
      exact Nat.not_lt.2 h
    simp [loose]

/-- What binds tighter stands behind an operator without parentheses. -/
theorem needsParens_right {e : Expr} (h : op.power < e.rank) : e.needsParens op true = false := by
  rw [needsParens_eq]
  unfold rank at h
  split
  · rfl
  · rename_i op' outer
    rw [outer] at h
    have tight : op.precedence < op'.precedence := (Operator.power_lt_iff _ _).1 h
    have other : (op'.precedence == op.precedence) = false := by
      rw [beq_eq_false_iff_ne]
      exact Nat.ne_of_gt tight
    simp [other, Nat.le_of_lt tight]

theorem gives_renderOperands_append {es : List Expr} {ps : List Phrase}
    (h : Gives (renderOperands r op es) used ps used') (hq : Gives (rhs.render r) used' q used'') :
    Gives (renderOperands r op (es ++ [rhs])) used (ps ++ [rhs.asOperand op true q]) used'' := by
  induction es generalizing used ps with
  | nil =>
    obtain ⟨rfl, rfl⟩ := gives_pure.1 h
    exact gives_bind.2 ⟨q, _, hq, gives_bind.2 ⟨[], _, gives_pure.2 ⟨rfl, rfl⟩,
      gives_pure.2 ⟨rfl, rfl⟩⟩⟩
  | cons e es ih =>
    simp only [renderOperands, gives_bind, gives_pure] at h
    obtain ⟨p, _, hp, ps, _, hps, rfl, rfl⟩ := h
    exact gives_bind.2 ⟨p, _, hp, gives_bind.2 ⟨_, _, ih hps, gives_pure.2 ⟨rfl, rfl⟩⟩⟩

/-- Writing what an operator puts together writes the left side, the operator and the right side. -/
theorem gives_combine (between : op.IsBetween) (check : r.checkOperator op = .ok ())
    (readIn : op.ReadIn r.dialect) (hp : Gives (lhs.render r) used p used')
    (hq : Gives (rhs.render r) used' q used'') :
    ∃ p', Gives ((combine op lhs rhs).render r) used p' used'' ∧
      wordsIn r.dialect p' = wordsIn r.dialect (lhs.asOperand op false p) ++
        (op.words ++ wordsIn r.dialect (rhs.asOperand op true q)) := by
  obtain ⟨noList, noRange⟩ := between.shape_ne
  rcases combine_cases op lhs rhs with pair | ⟨operands, flattens, rfl, taken⟩
  · rw [pair]
    refine ⟨_, gives_operation.2 ⟨check, .chain noList (fun range => absurd range noRange) hp hq
      (gives_pure.2 ⟨rfl, rfl⟩)⟩, ?_⟩
    rw [wordsIn_chain readIn, List.flatMap_singleton]
  · have shape : op.shape = .between := by
      cases op <;> first | rfl | cases flattens
    have bare : (operation op operands).asOperand op false p = p := by
      have free : (operation op operands).needsParens op false = false := by
        simp [needsParens]
      rw [asOperand, free]
      rfl
    rw [taken, bare]
    obtain ⟨-, written⟩ := gives_operation.1 hp
    cases written with
    | chain _ _ first second others =>
      refine ⟨_, gives_operation.2 ⟨check, .chain noList (fun range => absurd range noRange) first
        second (gives_renderOperands_append others hq)⟩, ?_⟩
      rw [wordsIn_chain readIn, wordsIn_chain readIn]
      simp
    | prefixWord other | prefixSign other | negation other | postfixWords other
    | membershipQuery other | membershipList other | range other =>
      rw [shape] at other
      cases other

theorem lexable_combine (readIn : op.ReadIn r.dialect)
    (left : lhs.Everywhere (Lexable r) (Query.Lexable r))
    (right : rhs.Everywhere (Lexable r) (Query.Lexable r)) :
    (combine op lhs rhs).Everywhere (Lexable r) (Query.Lexable r) := by
  rcases combine_cases op lhs rhs with pair | ⟨operands, -, rfl, taken⟩
  · rw [pair]
    refine ⟨readIn, fun x hx => ?_, by simp [queries]⟩
    rcases List.mem_cons.1 hx with rfl | hx
    · exact left
    · rw [List.mem_singleton.1 hx]
      exact right
  · rw [taken]
    refine ⟨readIn, fun x hx => ?_, by simp [queries]⟩
    rcases List.mem_append.1 hx with hx | hx
    · exact left.parts x hx
    · rw [List.mem_singleton.1 hx]
      exact right

end Expr

end Combine

/-! ## Chains as words -/

namespace TokenKind

/-- An operand of a chain: an identifier, or an integer that is not negative. -/
def IsOperand : TokenKind → Prop
  | identifier _ => True
  | integer n => 0 ≤ n.toInt
  | _ => False

/-- What the renderer makes of an operand or operator: an identifier has the delimiters that it
needs, and anything else stays what it is. -/
def written (r : RenderContext) : TokenKind → TokenKind
  | identifier s => identifier (r.dialect.writeName r.quoting s)
  | k => k

end TokenKind

theorem Operator.written_words (r : RenderContext) (op : Operator) :
    (op.words.map Word.kind).map (TokenKind.written r) = op.words.map Word.kind := by
  cases op <;> rfl

/-- Operands with binary operators between them. -/
inductive IsChain : List TokenKind → Prop
  | operand {k} (operand : k.IsOperand) : IsChain [k]
  | operator {k op ks} (operand : k.IsOperand) (chained : op ∈ Operator.chained)
    (others : IsChain ks) : IsChain (k :: (op.words.map Word.kind ++ ks))

/-- The word is read as this operand, which any dialect writes as one word. -/
inductive Word.IsAtom (w : Word) : Expr → Prop
  | name (isIdentifier : w.kind = .identifier w.text)
    (written : ∀ (d : Dialect) rule, d.words (d.writeName rule w.text).toList =
      [⟨.identifier (d.writeName rule w.text), (d.writeName rule w.text).toList⟩]) :
    IsAtom w (.name ⟨[w.text]⟩)
  | integer {n} (isInteger : w.kind = .integer n) (nonneg : 0 ≤ n.toInt) :
    IsAtom w (.literal (.integer n))

namespace Word.IsAtom

variable {w v : Word} {e : Expr}

theorem rank (h : w.IsAtom e) : e.rank = 17 := by
  cases h <;> rfl

theorem solid (h : w.IsAtom e) : e.Solid := by
  cases h <;> rintro op operands ⟨⟩

theorem reads {r : Nested} (h : w.IsAtom e) (separates : v.kind.separates) (rest : List Word) :
    Reads (Grammar.operand r) (w :: v :: rest) e (v :: rest) := by
  cases h with
  | name isIdentifier =>
    have noMembers : ∀ m ∈ ([] : List Word), m.IsMember := List.forall_mem_nil _
    exact reads_operand_qualified (.inl isIdentifier) noMembers separates rest
  | integer isInteger => exact reads_operand_literal (by rw [isInteger]; rfl) separates rest

/-- An operand is written as the word that it was read from, its delimiters aside. -/
theorem gives (h : w.IsAtom e) (r : RenderContext) (used : List String) :
    ∃ p, Gives (e.render r) used p used ∧
      (wordsIn r.dialect p).map Word.kind = [w.kind.written r] := by
  cases h with
  | name isIdentifier written =>
    refine ⟨_, gives_pure.2 ⟨rfl, rfl⟩, ?_⟩
    have one := written r.dialect r.quoting
    have dotted : r.qualified ⟨[w.text]⟩ = [r.name w.text] := rfl
    rw [dotted, wordsIn_name, one, isIdentifier]
    rfl
  | @integer n isInteger nonneg =>
    refine ⟨_, gives_pure.2 ⟨rfl, rfl⟩, ?_⟩
    have one := (spells_integer (d := r.dialect) nonneg).words_eq
    have sql : (Literal.integer n).sql r.dialect = toString n.toInt := rfl
    rw [wordsIn_text, sql, one, isInteger]
    rfl

theorem lexable (h : w.IsAtom e) (r : RenderContext) :
    e.Everywhere (Expr.Lexable r) (Query.Lexable r) := by
  cases h with
  | name => exact ⟨trivial, by simp [Expr.parts], by simp [Expr.queries]⟩
  | integer _ nonneg =>
    exact ⟨(spells_integer (d := r.dialect) nonneg).whole, by simp [Expr.parts],
      by simp [Expr.queries]⟩

end Word.IsAtom

/-- An operator of a chain with the operand behind it. -/
structure Link where
  op : Operator
  /-- How the operator is spelled. -/
  signs : List Word
  operand : Word
  /-- What the operand is read as. -/
  atom : Expr
  chained : op ∈ Operator.chained
  spelled : signs.map Word.kind = op.words.map Word.kind
  isAtom : operand.IsAtom atom

namespace Link

/-- The operator and its operand. -/
def words (l : Link) : List Word := l.signs ++ [l.operand]

/-- A link begins with a word of its operator. -/
theorem exists_first (l : Link) :
    ∃ v vs, l.words = v :: vs ∧ v.Follows l.op.power := by
  obtain ⟨notNot, notTilde⟩ := (Operator.isBetween_of_chained l.chained).ne
  obtain ⟨v, vs, first, follows⟩ := Operator.words_follows notNot notTilde
  have spelled := l.spelled
  rw [first] at spelled
  obtain ⟨u, us, signs, same, -⟩ := List.map_eq_cons_iff.1 spelled
  refine ⟨u, us ++ [l.operand], ?_, ?_, ?_⟩
  · rw [words, signs]
    rfl
  · rw [same]
    exact follows.separates
  · rw [same]
    exact follows.loose

theorem exists_separator (links : List Link) {w : Word} (separates : w.kind.separates)
    (rest : List Word) : ∃ v vs, links.flatMap words ++ w :: rest = v :: vs ∧ v.kind.separates := by
  cases links with
  | nil => exact ⟨w, rest, rfl, separates⟩
  | cons l links =>
    obtain ⟨v, vs, first, follows⟩ := l.exists_first
    rw [List.flatMap_cons, first]
    exact ⟨v, _, rfl, follows.separates⟩

/-- The words of a link are written with the kinds that they were read with. -/
theorem kinds_words (l : Link) (r : RenderContext) :
    l.words.map (·.kind.written r) = l.op.words.map Word.kind ++ [l.operand.kind.written r] := by
  have spelled := congrArg (List.map (TokenKind.written r)) l.spelled
  rw [Operator.written_words, List.map_map] at spelled
  rw [words, List.map_append, List.map_singleton]
  exact congrArg (· ++ [l.operand.kind.written r]) spelled

end Link

/-! ## What is read from a chain -/

/-- The expression is what an operand and links behind it are read as: each operator has in front of
it what binds at least as tightly, and behind it what binds tighter. -/
inductive Expr.Flat : Expr → Word → List Link → Prop
  | atom {w e} (isAtom : w.IsAtom e) : Flat e w []
  | combine {lhs w done l rhs inner} (left : Flat lhs w done) (right : Flat rhs l.operand inner)
    (loose : l.op.power ≤ lhs.rank) (tight : l.op.power < rhs.rank) :
    Flat (Grammar.combine l.op lhs rhs) w (done ++ l :: inner)

namespace Expr.Flat

variable {e : Expr} {w : Word} {links : List Link}

theorem solid (h : e.Flat w links) : e.Solid := by
  induction h with
  | atom isAtom => exact isAtom.solid
  | combine _ _ _ _ left => exact solid_combine left

theorem lexable (h : e.Flat w links) (r : RenderContext) :
    e.Everywhere (Lexable r) (Query.Lexable r) := by
  induction h with
  | atom isAtom => exact isAtom.lexable r
  | @combine _ _ _ l _ _ _ _ _ _ left right =>
    exact lexable_combine (Operator.readIn_of_chained l.chained _) left right

/-- What is read from a chain is written, without parentheses, as the same chain. -/
theorem gives (h : e.Flat w links) (r : RenderContext) (used : List String) :
    ∃ p, Gives (e.render r) used p used ∧ (wordsIn r.dialect p).map Word.kind =
      (w :: links.flatMap Link.words).map (·.kind.written r) := by
  induction h with
  | atom isAtom => exact isAtom.gives r used
  | @combine lhs w done l rhs inner _ _ loose tight left right =>
    obtain ⟨p, written, first⟩ := left
    obtain ⟨q, behind, second⟩ := right
    obtain ⟨p', gives, words⟩ := gives_combine (Operator.isBetween_of_chained l.chained)
      (Operator.checkOperator_of_chained l.chained r) (Operator.readIn_of_chained l.chained _)
      written behind
    have bareLeft : lhs.asOperand l.op false p = p := by
      rw [asOperand, needsParens_left loose]
      rfl
    have bareRight : rhs.asOperand l.op true q = q := by
      rw [asOperand, needsParens_right tight]
      rfl
    refine ⟨p', gives, ?_⟩
    rw [words, bareLeft, bareRight]
    simp only [List.map_append, List.map_cons, List.flatMap_append, List.flatMap_cons,
      l.kinds_words, first, second]
    simp

end Expr.Flat

/-! ## Reading -/

section Reading

variable {w x : Word} {e e' lhs : Expr} {links done : List Link} {least limit levels : Nat}

theorem Word.IsAtom.opens {r : Nested} (h : x.IsAtom e) (separates : w.kind.separates)
    (extends' : Extends r least e (links.flatMap Link.words) e' w) :
    Opens r least (x :: links.flatMap Link.words) e' w := by
  intro rest
  obtain ⟨v, vs, first, isSeparator⟩ := Link.exists_separator links separates rest
  have steps := extends' rest
  rw [first] at steps
  refine ⟨v :: vs, e, ?_, steps⟩
  rw [List.cons_append, first]
  exact h.reads isSeparator vs

end Reading

namespace IsChain

variable {ks : List TokenKind} {ws : List Word} {d : Dialect} {text : List Char}

end IsChain

end BoundSql
