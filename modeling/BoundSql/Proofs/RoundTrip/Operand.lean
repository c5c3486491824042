import BoundSql.Proofs.Render.Tidy
import BoundSql.Proofs.Tree.Regroup

/-!
# Reading operands back

An operand is read back inside parentheses, or without them if it binds tightly enough for the place
where it stands. `ReadBack` is what has to be known of the words of an expression for that.
-/

namespace BoundSql

open Parse Grammar Phrase

/-- The words of the fixed texts in expressions. -/
theorem words_fixed (d : Dialect) :
    d.words "CASE".toList = [.key .CASE] ∧ d.words "WHEN".toList = [.key .WHEN] ∧
      d.words "THEN".toList = [.key .THEN] ∧ d.words "ELSE".toList = [.key .ELSE] ∧
      d.words "END".toList = [.key .END] ∧ d.words "CAST".toList = [.key .CAST] ∧
      d.words "AS".toList = [.key .AS] ∧ d.words "AND".toList = [.key .AND] ∧
      d.words "DISTINCT".toList = [.key .DISTINCT] ∧
      d.words "(".toList = [.sign .leftParen "("] ∧ d.words ")".toList = [.sign .rightParen ")"] ∧
      d.words ",".toList = [.sign .comma ","] ∧ d.words "-".toList = [.sign .minus "-"] :=
  ⟨(spells_keyword d .CASE).words_eq, (spells_keyword d .WHEN).words_eq,
    (spells_keyword d .THEN).words_eq, (spells_keyword d .ELSE).words_eq,
    (spells_keyword d .END).words_eq, (spells_keyword d .CAST).words_eq,
    (spells_keyword d .AS).words_eq, (spells_keyword d .AND).words_eq,
    (spells_keyword d .DISTINCT).words_eq, Tidy.words_leftParen, Tidy.words_rightParen,
    Tidy.words_comma, Tidy.words_minus⟩

theorem wordsIn_parens (d : Dialect) (p : Phrase) :
    wordsIn d (parens p) = .sign .leftParen "(" :: wordsIn d p ++ [.sign .rightParen ")"] := by
  simp only [parens, wordsIn_append, wordsIn_cons, wordsIn_nil, Mark.words, words_fixed d,
    List.append_nil, List.singleton_append]

/-- The words of phrases with commas between them. -/
theorem wordsIn_commas (d : Dialect) (p q : Phrase) (ps : List Phrase) :
    wordsIn d (commas (p :: q :: ps)) =
      wordsIn d p ++ .sign .comma "," :: wordsIn d (commas (q :: ps)) := by
  have hcommas : commas (p :: q :: ps) = p ++ [.text ",", .blank] ++ commas (q :: ps) := rfl
  rw [hcommas, wordsIn_append, wordsIn_append, wordsIn_cons, wordsIn_cons, Mark.words,
    Tidy.words_comma, List.append_assoc]
  rfl

/-- Items with commas between them are taken if each is taken in front of a comma and of the word
behind the list. -/
theorem takesCommas_of_forall₂ {α : Type} {item : Parse α} {d : Dialect} {w : Word}
    {ps : List Phrase} {xs : List α}
    (h : List.Forall₂ (fun x p => ∀ v : Word, v.kind = .punct .comma ∨ v = w →
      Takes item (wordsIn d p) x v) xs ps) (hne : xs ≠ []) :
    TakesCommas item w (wordsIn d (commas ps)) xs := by
  induction h with
  | nil => exact absurd rfl hne
  | @cons x p xs ps hx hxs ih =>
    cases hxs with
    | nil => exact .one (hx w (.inr rfl))
    | @cons y q ys qs hy hys =>
      rw [wordsIn_commas]
      exact .cons rfl (hx _ (.inl rfl)) (ih (by simp))

namespace Expr

/-- How tightly the operators of the text of an expression bind at least. -/
def rank (e : Expr) : Nat :=
  match e.outermost? with
  | some op => op.power
  | none => 17

theorem rank_le (e : Expr) : e.rank ≤ 17 := by
  unfold rank
  split
  · rename_i op _
    cases op <;> decide
  · exact Nat.le_refl _

/-- An operand that stands in front without parentheses binds at least as tightly. -/
theorem power_le_rank {op : Operator} {e : Expr} (h : e.needsParens op false = false) :
    op.power ≤ e.rank := by
  rw [needsParens_eq] at h
  unfold rank
  split at h
  · rename_i hout
    rw [hout]
    cases op <;> decide
  · rename_i op' hout
    rw [hout]
    simp only [Bool.or_eq_false_iff, decide_eq_false_iff_not] at h
    rw [← Operator.power_lt_iff] at h
    exact Nat.not_lt.1 h.1

/-- An operand that stands behind without parentheses binds tighter, or belongs to the chain. -/
theorem power_lt_rank {op : Operator} {e : Expr} (h : e.needsParens op true = false) :
    op.power < e.rank ∨ (op.power = e.rank ∧ (op.flattens ∨ e.outermost? = none)) := by
  rw [needsParens_eq] at h
  unfold rank
  split at h
  · rename_i hout
    rw [hout]
    have hle : op.power ≤ 17 := by cases op <;> decide
    rcases Nat.lt_or_eq_of_le hle with h | h
    · exact .inl h
    · exact .inr ⟨h, .inr rfl⟩
  · rename_i op' hout
    rw [hout]
    simp only [Bool.or_eq_false_iff, decide_eq_false_iff_not, ← Operator.power_lt_iff] at h
    rcases Nat.lt_or_eq_of_le (Nat.not_lt.1 h.1) with hlt | heq
    · exact .inl hlt
    · have hprec := (Operator.power_eq_iff _ _).1 heq
      refine .inr ⟨heq, .inl ?_⟩
      have hsame : op' = op ∧ op.flattens := by simpa [hprec] using h.2
      exact hsame.2

end Expr

/-- What has to be known of the words of an expression to read it back wherever it stands. -/
structure ReadBack (d : Dialect) (e : Expr) (p : Phrase) : Prop where
  begins : ∃ u us, wordsIn d p = u :: us ∧ u.Begins ∧ u.kind ≠ .keyword .NULL ∧
    (5 ≤ e.rank → u.kind ≠ .keyword .NOT)
  opens : ∀ {limit levels least w}, 2 * sizeOf e ≤ levels → w.Follows e.rank → least ≤ e.rank →
    Opens (below limit levels) least (wordsIn d p) e.regrouped w
  continues : ∀ {limit levels least op lhs w}, 2 * sizeOf e ≤ levels → op.flattens →
    op.power ≤ e.rank → w.Follows op.power → least ≤ op.power → lhs.Solid →
    Extends (below limit (levels + 1)) least lhs (op.words ++ wordsIn d p)
      (Expr.graft op lhs e.regrouped) w

section Operands

variable {d : Dialect} {e : Expr} {p : Phrase} {limit levels least : Nat} {w : Word}

/-- What an operator that flattens takes up as a whole when it binds less tightly. -/
theorem continues_of_lt {op : Operator} {lhs : Expr} {u : Word} {us : List Word}
    (hout : e.regrouped.outermost? = e.outermost?) (hu : wordsIn d p = u :: us)
    (hopens : Opens (below limit levels) (op.power + 1) (wordsIn d p) e.regrouped w)
    (hflat : op.flattens) (hlt : op.power < e.rank) (hw : w.Follows op.power)
    (hleast : least ≤ op.power) :
    Extends (below limit (levels + 1)) least lhs (op.words ++ wordsIn d p)
      (Expr.graft op lhs e.regrouped) w := by
  have hgraft : Expr.graft op lhs e.regrouped = combine op lhs e.regrouped := by
    refine Expr.graft_of_outermost fun op' hop' heq => ?_
    rw [hout] at hop'
    have hpower := (Operator.power_eq_iff _ _).2 heq
    rw [Expr.rank, hop'] at hlt
    simp [hpower] at hlt
  have hbetween : op.IsBetween := by
    cases op <;> first | cases hflat; done | decide
  have htakes := hopens.takes hw.stops
  rw [hgraft]
  rw [hu] at htakes ⊢
  refine Extends.operator hbetween hleast ?_ htakes
  rintro rfl
  cases hflat

/-- An expression whose operators are not those of a chain. -/
theorem ReadBack.of_opens (hout : e.regrouped.outermost? = e.outermost?)
    (hrank : ∀ op : Operator, op.flattens → op.power ≠ e.rank)
    (begins : ∃ u us, wordsIn d p = u :: us ∧ u.Begins ∧ u.kind ≠ .keyword .NULL ∧
      (5 ≤ e.rank → u.kind ≠ .keyword .NOT))
    (opens : ∀ {limit levels least w}, 2 * sizeOf e ≤ levels → w.Follows e.rank → least ≤ e.rank →
      Opens (below limit levels) least (wordsIn d p) e.regrouped w) : ReadBack d e p := by
  refine ⟨begins, opens, fun hlevels hflat hpower hw hleast _ => ?_⟩
  obtain ⟨u, us, hu, -⟩ := begins
  have hlt := Nat.lt_of_le_of_ne hpower (hrank _ hflat)
  exact continues_of_lt hout hu (opens hlevels (hw.mono hpower) hlt) hflat hlt hw hleast

theorem ReadBack.takes (h : ReadBack d e p) (hlevels : 2 * sizeOf e < levels)
    (hw : w.Stops least) (hfollows : w.Follows e.rank) (hleast : least ≤ e.rank) :
    Takes (expression limit levels least) (wordsIn d p) e.regrouped w := by
  obtain ⟨levels, rfl⟩ : ∃ n, levels = n + 1 := ⟨levels - 1, by omega⟩
  exact (h.opens (by omega) hfollows hleast).takes hw

/-- An expression by itself, up to a word that closes it. -/
theorem ReadBack.takes_whole (h : ReadBack d e p) (hlevels : 2 * sizeOf e < levels)
    (hw : w.Closes) : Takes (expression limit levels 0) (wordsIn d p) e.regrouped w :=
  h.takes hlevels (hw.stops _) (hw.follows _) (Nat.zero_le _)

/-- An expression in parentheses. -/
theorem ReadBack.opens_parens (h : ReadBack d e p) (hlevels : 2 * sizeOf e < levels) :
    Opens (below limit levels) least (wordsIn d (parens p)) e.regrouped w := by
  obtain ⟨u, us, hu, hbegins, -⟩ := h.begins
  have htakes : Takes (expression limit levels 0) (wordsIn d p) e.regrouped
      (.sign .rightParen ")") := h.takes_whole hlevels (.punct rfl rfl rfl)
  rw [wordsIn_parens]
  rw [hu] at htakes ⊢
  exact opens_group rfl rfl hbegins.select htakes

/-- An operand that stands behind its operator or sign. -/
theorem ReadBack.takes_operand (h : ReadBack d e p) {op : Operator} {right : Bool}
    (hlevels : 2 * sizeOf e + 1 < levels) (hw : w.Stops least)
    (hfree : e.needsParens op right = false → w.Follows e.rank ∧ least ≤ e.rank) :
    Takes (expression limit levels least) (wordsIn d (e.asOperand op right p)) e.regrouped w := by
  obtain ⟨levels, rfl⟩ : ∃ n, levels = n + 1 := ⟨levels - 1, by omega⟩
  unfold Expr.asOperand
  split
  · exact (h.opens_parens (by omega)).takes hw
  · rename_i hparens
    obtain ⟨hfollows, hleast⟩ := hfree (Bool.eq_false_iff.2 hparens)
    exact h.takes (by omega) hw hfollows hleast

end Operands

end BoundSql
