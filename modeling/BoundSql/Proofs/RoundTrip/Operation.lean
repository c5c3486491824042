import BoundSql.Proofs.RoundTrip.Expression

/-!
# Reading operations back

The operands of an operation stand in parentheses where they bind too loosely, and the words of its
operator stop what is read in front of them. A chain is read one operand after the other.
-/

namespace BoundSql

open Text Token Parse Grammar Phrase Render RenderContext

namespace Infix

/-- No infix form binds as tightly as a sign. -/
theorem left_ne_signPower (form : Infix) : form.left ≠ signPower := by
  cases form with
  | binary op => cases op <;> decide
  | _ => decide

end Infix

theorem Word.Follows.keyword {w : Word} {k : Keyword} {form : Infix} {power : Nat}
    (h : w.kind = .keyword k) (hk : Infix.ofKeyword? k = some form) (hform : form.left ≤ power) :
    w.Follows power := by
  refine ⟨by rw [h]; rfl, fun form' hform' => ?_⟩
  rw [h, Infix.ofToken?, hk] at hform'
  cases hform'
  exact hform

/-- What begins no infix form that binds tighter than a sign stops the operand of the sign. -/
theorem Word.Follows.stops_sign {w : Word} (h : w.Follows signPower) : w.Stops signPower :=
  ⟨h.separates, fun form hform => Nat.lt_of_le_of_ne (h.loose form hform) form.left_ne_signPower⟩

namespace Operator

/-- The first word of an operator behind an operand. -/
theorem words_follows {op : Operator} (h : op ≠ not) (h' : op ≠ bitNot) :
    ∃ v vs, op.words = v :: vs ∧ v.Follows op.power := by
  cases op <;> first
    | exact absurd rfl h
    | exact absurd rfl h'
    | exact ⟨_, _, rfl, rfl, by rintro form ⟨⟩; decide⟩

theorem IsBetween.ne {op : Operator} (h : op.IsBetween) : op ≠ not ∧ op ≠ bitNot := by
  constructor <;> rintro rfl <;> exact absurd h (by decide)

theorem IsBetween.power_lt {op : Operator} (h : op.IsBetween) : op.power < 17 := by
  revert h
  cases op <;> decide

/-- A mark of an operator that the dialect reads as it is written. -/
theorem wordsIn_mark {op : Operator} {d : Dialect} (h : op.ReadIn d) (p : Phrase) :
    wordsIn d (op.mark :: p) = op.words ++ wordsIn d p := by
  rw [wordsIn_cons, mark, Mark.words, (spells_operator h).words_eq]

end Operator

section Operands

variable {d : Dialect} {e : Expr} {p : Phrase} {limit levels least : Nat} {w : Word}
  {op : Operator}

/-- An operand in front of its operator. -/
theorem ReadBack.opens_operand (h : ReadBack d e p) (hlevels : 2 * sizeOf e < levels)
    (hw : w.Follows op.power) (hleast : least ≤ op.power) :
    Opens (below limit levels) least (wordsIn d (e.asOperand op false p)) e.regrouped w := by
  unfold Expr.asOperand
  split
  · exact h.opens_parens hlevels
  · rename_i hparens
    have hrank := Expr.power_le_rank (Bool.eq_false_iff.2 hparens)
    exact h.opens (by omega) (hw.mono hrank) (Nat.le_trans hleast hrank)

/-- An operand in front of its operator begins what the operation begins. -/
theorem ReadBack.begins_operand (h : ReadBack d e p) (op : Operator) :
    ∃ u us, wordsIn d (e.asOperand op false p) = u :: us ∧ u.Begins ∧ u.kind ≠ .keyword .NULL ∧
      (5 ≤ op.power → u.kind ≠ .keyword .NOT) := by
  unfold Expr.asOperand
  split
  · rw [wordsIn_parens]
    refine ⟨_, _, rfl, ?_, ?_, fun _ => ?_⟩
    · constructor <;> simp [Word.sign]
    · simp [Word.sign]
    · simp [Word.sign]
  · rename_i hparens
    have hrank := Expr.power_le_rank (Bool.eq_false_iff.2 hparens)
    obtain ⟨u, us, hu, hbegins, hnull, hnot⟩ := h.begins
    exact ⟨u, us, hu, hbegins, hnull, fun hpower => hnot (Nat.le_trans hpower hrank)⟩

/-- An operator between operands with the operand behind it. -/
theorem ReadBack.extends_operand {lhs : Expr} (h : ReadBack d e p)
    (hout : e.regrouped.outermost? = e.outermost?) (hbetween : op.IsBetween)
    (hlevels : 2 * sizeOf e + 1 < levels) (hw : w.Follows op.power) (hleast : least ≤ op.power)
    (hlhs : lhs.Solid) :
    Extends (below limit levels) least lhs (op.words ++ wordsIn d (e.asOperand op true p))
      (Expr.attach op lhs e.regrouped) w := by
  obtain ⟨levels, rfl⟩ : ∃ n, levels = n + 1 := ⟨levels - 1, by omega⟩
  have hsame := Expr.needsParens_congr hout op true
  unfold Expr.attach Expr.asOperand
  rw [hsame]
  cases hparens : e.needsParens op true with
  | true =>
    have htakes : Takes (expression limit (levels + 1) (op.power + 1)) (wordsIn d (parens p))
        e.regrouped w := (h.opens_parens (by omega)).takes hw.stops
    simp only [if_true]
    rw [wordsIn_parens] at htakes ⊢
    refine .operator hbetween hleast (fun _ => ?_) htakes
    simp [Word.sign]
  | false =>
    simp only [Bool.false_eq_true, if_false]
    rcases Expr.power_lt_rank hparens with hlt | ⟨heq, hflat | hnone⟩
    · by_cases hflat : op.flattens
      · exact h.continues (by omega) hflat (Nat.le_of_lt hlt) hw hleast hlhs
      · have hgraft : Expr.graft op lhs e.regrouped = combine op lhs e.regrouped := by
          refine Expr.graft_of_outermost fun op' hop' hprec => ?_
          rw [hout] at hop'
          rw [Expr.rank, hop'] at hlt
          exact Nat.ne_of_gt hlt ((Operator.power_eq_iff _ _).2 hprec)
        have htakes : Takes (expression limit (levels + 1) (op.power + 1)) (wordsIn d p)
            e.regrouped w := h.takes (by omega) hw.stops (hw.mono (Nat.le_of_lt hlt)) hlt
        obtain ⟨u, us, hu, -, hnull, hnot⟩ := h.begins
        rw [hgraft]
        rw [hu] at htakes ⊢
        refine .operator hbetween hleast ?_ htakes
        rintro rfl
        exact ⟨hnot (Nat.le_of_lt hlt), hnull⟩
    · exact h.continues (by omega) hflat (Nat.le_of_eq heq) hw hleast hlhs
    · have hpower := hbetween.power_lt
      rw [heq, rank_of_outermost_none hnone] at hpower
      exact absurd hpower (Nat.lt_irrefl _)

/-- A phrase is an operand behind an operator with a phrase that is read back. -/
def OperandBack (d : Dialect) (op : Operator) (e : Expr) (q : Phrase) : Prop :=
  ∃ p, q = e.asOperand op true p ∧ ReadBack d e p

/-- An expression whose regrouping keeps what decides about parentheses. -/
def Expr.Steady (e : Expr) : Prop := e.regrouped.outermost? = e.outermost? ∧ e.regrouped.Solid

/-- The operands of a chain behind the first one. -/
theorem extends_chain {es : List Expr} {qs : List Phrase} {lhs : Expr}
    (h : List.Forall₂ (OperandBack d op) es qs) (hne : es ≠ []) (hsteady : ∀ e ∈ es, e.Steady)
    (hbetween : op.IsBetween) (hlevels : ∀ e ∈ es, 2 * sizeOf e + 1 < levels)
    (hw : w.Follows op.power) (hleast : least ≤ op.power) (hlhs : lhs.Solid) :
    Extends (below limit levels) least lhs (qs.flatMap fun q => op.words ++ wordsIn d q)
      ((es.map Expr.regrouped).foldl (Expr.attach op) lhs) w := by
  obtain ⟨v, vs, hv, hfollows⟩ := Operator.words_follows hbetween.ne.1 hbetween.ne.2
  induction h generalizing lhs with
  | nil => exact absurd rfl hne
  | @cons e q es qs he hes ih =>
    obtain ⟨p, rfl, he⟩ := he
    obtain ⟨hout, hsolid⟩ := hsteady e List.mem_cons_self
    have hfirst {u : Word} (hu : u.Follows op.power) : Extends (below limit levels) least lhs
        (op.words ++ wordsIn d (e.asOperand op true p)) (Expr.attach op lhs e.regrouped) u :=
      he.extends_operand hout hbetween (hlevels e List.mem_cons_self) hu hleast hlhs
    cases hes with
    | nil => simpa using hfirst hw
    | @cons e' q' es qs he' hes =>
      have hattach : (Expr.attach op lhs e.regrouped).Solid := Expr.solid_attach hlhs
      have hothers := ih (by simp) (fun x hx => hsteady x (List.mem_cons_of_mem _ hx))
        (fun x hx => hlevels x (List.mem_cons_of_mem _ hx)) hattach
      rw [List.flatMap_cons, hv] at hothers
      rw [List.flatMap_cons, List.flatMap_cons]
      rw [hv] at hfirst ⊢
      exact (hfirst hfollows).trans hothers

/-- The words of a chain. -/
theorem wordsIn_chain (hop : op.ReadIn d) (p : Phrase) (qs : List Phrase) :
    wordsIn d (chain op p qs) = wordsIn d p ++ qs.flatMap fun q => op.words ++ wordsIn d q := by
  induction qs generalizing p with
  | nil => simp [chain, sepBy]
  | cons q qs ih =>
    have hchain : chain op p (q :: qs) = p ++ [.blank, op.mark, .blank] ++ chain op q qs := rfl
    rw [hchain, wordsIn_append, wordsIn_append, ih, wordsIn_cons, Operator.wordsIn_mark hop]
    simp

theorem Expr.rank_chain (op : Operator) (x y : Expr) (ys : List Expr) :
    (operation op (x :: y :: ys)).rank = op.power := by
  simp [rank, outermost?]

/-- An operator that takes up the first operand of a chain with it. -/
theorem ReadBack.extends_first {op' : Operator} {lhs : Expr} (h : ReadBack d e p)
    (hout : e.regrouped.outermost? = e.outermost?) (hflat : op'.flattens)
    (hpower : op'.power = op.power) (hlevels : 2 * sizeOf e < levels) (hw : w.Follows op.power)
    (hleast : least ≤ op.power) (hlhs : lhs.Solid) :
    Extends (below limit (levels + 1)) least lhs (op'.words ++ wordsIn d (e.asOperand op false p))
      (Expr.graft op' lhs e.regrouped) w := by
  rw [← hpower] at hw hleast
  unfold Expr.asOperand
  cases hparens : e.needsParens op false with
  | false =>
    have hrank := Expr.power_le_rank hparens
    exact h.continues (Nat.le_of_lt hlevels) hflat (by omega) hw hleast hlhs
  | true =>
    have hgraft : Expr.graft op' lhs e.regrouped = combine op' lhs e.regrouped := by
      refine Expr.graft_of_outermost fun o ho hprec => ?_
      rw [hout] at ho
      rw [(Operator.power_eq_iff _ _).1 hpower] at hprec
      rw [Expr.needsParens_eq, ho] at hparens
      simp [hprec] at hparens
    have hbetween : op'.IsBetween := by
      cases op' <;> first | (cases hflat; done) | decide
    have htakes : Takes (expression limit (levels + 1) (op'.power + 1)) (wordsIn d (parens p))
        e.regrouped w := (h.opens_parens hlevels).takes hw.stops
    rw [hgraft]
    simp only [if_true]
    rw [wordsIn_parens] at htakes ⊢
    refine .operator hbetween hleast (fun _ => ?_) htakes
    simp [Word.sign]

/-- A chain of an operator. -/
theorem readBack_chain {x y : Expr} {ys : List Expr} {px : Phrase} {qs : List Phrase}
    (hop : op.ReadIn d) (hbetween : op.IsBetween) (hcount : op.flattens = false → ys = [])
    (hx : ReadBack d x px) (hys : List.Forall₂ (OperandBack d op) (y :: ys) qs)
    (hout : (Expr.operation op (x :: y :: ys)).Steady) (hsteady : ∀ e ∈ x :: y :: ys, e.Steady) :
    ReadBack d (.operation op (x :: y :: ys)) (chain op (x.asOperand op false px) qs) := by
  have hsize : ∀ e ∈ x :: y :: ys, sizeOf e < sizeOf (Expr.operation op (x :: y :: ys)) :=
    fun e he => Expr.sizeOf_lt_of_mem_parts he
  have hwords := wordsIn_chain hop (x.asOperand op false px) qs
  obtain ⟨hxout, hxsolid⟩ := hsteady x List.mem_cons_self
  have hothers := fun e he => hsteady e (List.mem_cons_of_mem x he)
  obtain ⟨v, vs, hv, hfollows⟩ := Operator.words_follows hbetween.ne.1 hbetween.ne.2
  have hchain {limit levels least : Nat} {w : Word} {lhs : Expr}
      (hlevels : 2 * sizeOf (Expr.operation op (x :: y :: ys)) ≤ levels) (hw : w.Follows op.power)
      (hleast : least ≤ op.power) (hlhs : lhs.Solid) :
      Extends (below limit levels) least lhs (qs.flatMap fun q => op.words ++ wordsIn d q)
        (((y :: ys).map Expr.regrouped).foldl (Expr.attach op) lhs) w := by
    refine extends_chain hys (by simp) hothers hbetween (fun e he => ?_) hw hleast hlhs
    have := hsize e (List.mem_cons_of_mem x he)
    omega
  obtain ⟨us, hus⟩ : ∃ us, (qs.flatMap fun q => op.words ++ wordsIn d q) = v :: us := by
    cases hys with
    | cons => exact ⟨_, by rw [List.flatMap_cons, hv]; rfl⟩
  rw [hus] at hchain hwords
  have hopens {limit levels least : Nat} {w : Word}
      (hlevels : 2 * sizeOf (Expr.operation op (x :: y :: ys)) ≤ levels) (hw : w.Follows op.power)
      (hleast : least ≤ op.power) :
      Opens (below limit levels) least (wordsIn d (chain op (x.asOperand op false px) qs))
        (Expr.operation op (x :: y :: ys)).regrouped w := by
    rw [hwords, Expr.regrouped_chain hcount]
    have := hsize x List.mem_cons_self
    exact (hx.opens_operand (by omega) hfollows hleast).extends (hchain hlevels hw hleast hxsolid)
  obtain ⟨u, us', hu, hbegins, hnull, hnot⟩ := hx.begins_operand op
  have hrank := Expr.rank_chain op x y ys
  have hbegin : wordsIn d (chain op (x.asOperand op false px) qs) = u :: (us' ++ v :: us) := by
    rw [hwords, hu]
    rfl
  refine ⟨⟨u, _, hbegin, hbegins, hnull, ?_⟩, ?_, ?_⟩
  · rw [hrank]
    exact hnot
  · intro limit levels least w hlevels hw hleast
    rw [hrank] at hw hleast
    exact hopens hlevels hw hleast
  · intro limit levels least op' lhs w hlevels hflat hpower hw hleast hlhs
    rw [hrank] at hpower
    rcases Nat.lt_or_eq_of_le hpower with hlt | heq
    · refine continues_of_lt hout.1 hbegin (hopens hlevels (hw.mono hpower) hlt) hflat ?_ hw hleast
      rwa [hrank]
    · have hprec := ((Operator.power_eq_iff _ _).1 heq).symm
      have := hsize x List.mem_cons_self
      rw [hwords, Expr.regrouped_chain hcount, Expr.graft_foldl_attach hprec hxsolid,
        ← List.append_assoc]
      rw [heq] at hw hleast
      refine Extends.trans (hx.extends_first hxout hflat heq (by omega) hfollows hleast hlhs) ?_
      exact hchain (by omega) hw hleast (Expr.solid_graft hlhs _)

theorem sizeOf_operand {es : List Expr} (he : e ∈ es)
    (h : 2 * sizeOf (Expr.operation op es) ≤ levels) : 2 * sizeOf e + 1 < levels := by
  have : sizeOf e < sizeOf (Expr.operation op es) := Expr.sizeOf_lt_of_mem_parts he
  omega

theorem Expr.outermost?_regrouped_operation {es : List Expr} (hflat : op.flattens = false) :
    (operation op es).regrouped.outermost? = (operation op es).outermost? := by
  rw [regrouped_operation hflat, outermost?, outermost?, List.length_map]

theorem readBack_not (h : ReadBack d e p) (hop : Operator.not.ReadIn d) :
    ReadBack d (.operation .not [e]) ([Operator.not.mark, .blank] ++ e.asOperand .not true p) := by
  have hwords : wordsIn d ([Operator.not.mark, .blank] ++ e.asOperand .not true p) =
      .key .NOT :: wordsIn d (e.asOperand .not true p) := by
    rw [List.cons_append, Operator.wordsIn_mark hop]
    rfl
  have hrank : (Expr.operation .not [e]).rank = 4 := rfl
  refine .of_opens (Expr.outermost?_regrouped_operation rfl) ?_
    ⟨_, _, hwords, by constructor <;> simp [Word.key], by simp [Word.key], ?_⟩ ?_
  · intro op hflat
    rw [hrank]
    exact (Operator.power_ne_of_flattens hflat).1
  · rw [hrank]
    omega
  · intro limit levels least w hlevels hw hleast
    rw [hrank] at hw
    have htakes : Takes (expression limit levels notPower)
        (wordsIn d (e.asOperand .not true p)) e.regrouped w := by
      refine h.takes_operand (sizeOf_operand (by simp) hlevels) hw.stops fun hparens => ?_
      rcases Expr.power_lt_rank hparens with hlt | ⟨heq, hflat | hnone⟩
      · exact ⟨hw.mono (Nat.le_of_lt hlt), hlt⟩
      · cases hflat
      · rw [rank_of_outermost_none hnone] at heq
        cases heq
    rw [hwords, Expr.regrouped_operation rfl]
    exact opens_not rfl htakes

/-- What a sign in front takes as its operand. -/
theorem ReadBack.takes_sign (h : ReadBack d e p) (hlevels : 2 * sizeOf e + 1 < levels)
    (hw : w.Follows signPower) :
    Takes (expression limit levels signPower) (wordsIn d (e.asOperand .bitNot true p))
      e.regrouped w := by
  refine h.takes_operand hlevels hw.stops_sign fun hparens => ?_
  have hrank : e.rank = signPower := by
    rcases Expr.power_lt_rank hparens with hlt | ⟨heq, -⟩
    · exact absurd (Nat.lt_of_lt_of_le hlt e.rank_le) (Nat.lt_irrefl _)
    · exact heq.symm
  rw [hrank]
  exact ⟨hw, Nat.le_refl _⟩

theorem readBack_bitNot (h : ReadBack d e p) (hop : Operator.bitNot.ReadIn d) :
    ReadBack d (.operation .bitNot [e]) (Operator.bitNot.mark :: e.asOperand .bitNot true p) := by
  have hwords := Operator.wordsIn_mark hop (e.asOperand .bitNot true p)
  have hrank : (Expr.operation .bitNot [e]).rank = signPower := rfl
  refine .of_opens (Expr.outermost?_regrouped_operation rfl) ?_
    ⟨_, _, hwords, by constructor <;> simp [Word.sign], by simp [Word.sign], ?_⟩ ?_
  · intro op hflat
    rw [hrank]
    exact (Operator.power_ne_of_flattens hflat).2.2
  · simp [Word.sign]
  · intro limit levels least w hlevels hw hleast
    rw [hrank] at hw
    have htakes : Takes (expression limit levels signPower)
        (wordsIn d (e.asOperand .bitNot true p)) e.regrouped w :=
      h.takes_sign (sizeOf_operand (List.mem_singleton_self e) hlevels) hw
    rw [hwords, Expr.regrouped_operation rfl]
    exact opens_bitNot rfl htakes

/-- A negation. Its operand stands in parentheses also if it begins with a minus sign. -/
theorem readBack_negation (h : ReadBack d e p) :
    ReadBack d (.operation .minus [e]) (negated (e.asOperand .bitNot true p)) := by
  have hrank : (Expr.operation .minus [e]).rank = signPower := rfl
  have hwords : ∃ q, negated (e.asOperand .bitNot true p) = .text "-" :: q ∧
      (q = e.asOperand .bitNot true p ∨ q = parens p) := by
    unfold negated
    split
    · rename_i hminus
      refine ⟨_, rfl, .inr ?_⟩
      unfold Expr.asOperand at hminus ⊢
      split at hminus
      · cases hminus
      · rename_i hparens
        rw [if_neg hparens]
    · exact ⟨_, rfl, .inl rfl⟩
  obtain ⟨q, hq, hcases⟩ := hwords
  have hwords : wordsIn d (.text "-" :: q) = .sign .minus "-" :: wordsIn d q := by
    rw [wordsIn_cons, Mark.words, Tidy.words_minus]
    rfl
  rw [hq]
  refine .of_opens rfl ?_ ⟨_, _, hwords, by constructor <;> simp [Word.sign], by simp [Word.sign], ?_⟩ ?_
  · intro op hflat
    rw [hrank]
    exact (Operator.power_ne_of_flattens hflat).2.2
  · simp [Word.sign]
  · intro limit levels least w hlevels hw hleast
    rw [hrank] at hw
    have hsize := sizeOf_operand (List.mem_singleton_self e) hlevels
    have htakes : Takes (expression limit levels signPower) (wordsIn d q) e.regrouped w := by
      rcases hcases with rfl | rfl
      · exact h.takes_sign hsize hw
      · obtain ⟨levels, rfl⟩ : ∃ n, levels = n + 1 := ⟨levels - 1, by omega⟩
        exact (h.opens_parens (by omega)).takes hw.stops_sign
    rw [hwords, Expr.regrouped_operation rfl]
    exact opens_minus rfl htakes

/-- An operation whose operator stands behind its first operand and compares or tests it. -/
theorem readBack_test {es : List Expr} {v : Word} {vs : List Word} (h : ReadBack d e p)
    (hflat : op.flattens = false) (hpower : op.power = 5)
    (hrank : (Expr.operation op (e :: es)).rank = 5) {q : Phrase}
    (hwords : wordsIn d q = wordsIn d (e.asOperand op false p) ++ v :: vs) (hv : v.Follows 5)
    (tail : ∀ {limit levels least w}, 2 * sizeOf (Expr.operation op (e :: es)) ≤ levels →
      w.Follows 5 → least ≤ 5 → Extends (below limit levels) least e.regrouped (v :: vs)
        (.operation op ((e :: es).map Expr.regrouped)) w) :
    ReadBack d (.operation op (e :: es)) q := by
  obtain ⟨u, us, hu, hbegins, hnull, hnot⟩ := h.begins_operand op
  rw [hpower] at hnot
  have hbegin : wordsIn d q = u :: (us ++ v :: vs) := by
    rw [hwords, hu]
    rfl
  refine .of_opens (Expr.outermost?_regrouped_operation hflat) ?_
    ⟨u, _, hbegin, hbegins, hnull, fun _ => hnot (Nat.le_refl _)⟩ ?_
  · intro op' hflat'
    rw [hrank]
    exact (Operator.power_ne_of_flattens hflat').2.1
  · intro limit levels least w hlevels hw hleast
    rw [hrank] at hw hleast
    have hsize := sizeOf_operand List.mem_cons_self hlevels
    rw [hwords, Expr.regrouped_operation hflat]
    refine (h.opens_operand (by omega) ?_ ?_).extends (tail hlevels hw hleast)
    · rwa [hpower]
    · rwa [hpower]

theorem readBack_nullTest (hop : op = .isNull ∨ op = .isNotNull) (h : ReadBack d e p)
    (hread : op.ReadIn d) :
    ReadBack d (.operation op [e]) (e.asOperand op false p ++ [.blank, op.mark]) := by
  have hwords : wordsIn d (e.asOperand op false p ++ [.blank, op.mark]) =
      wordsIn d (e.asOperand op false p) ++ op.words := by
    rw [wordsIn_append, wordsIn_cons, Operator.wordsIn_mark hread, wordsIn_nil, List.append_nil]
    rfl
  rcases hop with rfl | rfl
  · exact readBack_test h rfl rfl rfl hwords (.keyword rfl rfl (by decide))
      fun _ _ hleast => .isNull hleast
  · exact readBack_test h rfl rfl rfl hwords (.keyword rfl rfl (by decide))
      fun _ _ hleast => .isNotNull hleast

/-- A test of membership in a list. -/
theorem readBack_membership {es : List Expr} {ps : List Phrase} (hop : op = .isIn ∨ op = .notIn)
    (h : ReadBack d e p) (hread : op.ReadIn d) (hes : List.Forall₂ (ReadBack d) es ps)
    (hne : es ≠ []) :
    ReadBack d (.operation op (e :: es))
      (e.asOperand op false p ++ [.blank, op.mark, .blank] ++ parens (commas ps)) := by
  have hwords : wordsIn d (e.asOperand op false p ++ [.blank, op.mark, .blank] ++
      parens (commas ps)) = wordsIn d (e.asOperand op false p) ++ (op.words ++
        .sign .leftParen "(" :: wordsIn d (commas ps) ++ [.sign .rightParen ")"]) := by
    rw [wordsIn_append, wordsIn_append, wordsIn_cons, Operator.wordsIn_mark hread, wordsIn_parens]
    simp
  have htail {limit levels least : Nat} {w : Word}
      (hlevels : 2 * sizeOf (Expr.operation op (e :: es)) ≤ levels) (hleast : least ≤ op.power) :
      Extends (below limit levels) least e.regrouped (op.words ++
        .sign .leftParen "(" :: wordsIn d (commas ps) ++ [.sign .rightParen ")"])
        (.operation op ((e :: es).map Expr.regrouped)) w := by
    have hsize : ∀ x ∈ es, 2 * sizeOf x < levels := by
      intro x hx
      have := sizeOf_operand (List.mem_cons_of_mem e hx) hlevels
      omega
    have htakes : TakesCommas (expression limit levels 0) (.sign .rightParen ")")
        (wordsIn d (commas ps)) (es.map Expr.regrouped) :=
      takesCommas_commas hes hne hsize (.punct rfl rfl rfl)
    obtain ⟨u, us, hu, hbegins⟩ := begins_commas hes hne
    rw [hu] at htakes ⊢
    rw [List.append_assoc]
    exact .membership hop hleast (takes_inList rfl rfl hbegins.select htakes w)
  rcases hop with rfl | rfl
  · exact readBack_test h rfl rfl rfl hwords (.keyword rfl rfl (by decide))
      fun hlevels _ hleast => htail hlevels hleast
  · exact readBack_test h rfl rfl rfl hwords (.keyword rfl rfl (by decide))
      fun hlevels _ hleast => htail hlevels hleast

/-- A bound of a range. -/
theorem ReadBack.takes_bound (h : ReadBack d e p) (hlevels : 2 * sizeOf e + 1 < levels)
    (hw : w.Follows 5) :
    Takes (expression limit levels Infix.between.right)
      (wordsIn d (e.asOperand .between true p)) e.regrouped w := by
  refine h.takes_operand hlevels hw.stops fun hparens => ?_
  rcases Expr.power_lt_rank hparens with hlt | ⟨heq, hflat | hnone⟩
  · exact ⟨hw.mono (Nat.le_of_lt hlt), hlt⟩
  · cases hflat
  · rw [rank_of_outermost_none hnone] at heq
    cases heq

/-- A test for a range. -/
theorem readBack_range {e₁ e₂ : Expr} {p₁ p₂ : Phrase} (h : ReadBack d e p)
    (hread : Operator.between.ReadIn d) (h₁ : ReadBack d e₁ p₁) (h₂ : ReadBack d e₂ p₂) :
    ReadBack d (.operation .between [e, e₁, e₂])
      (e.asOperand .between false p ++ [.blank, Operator.between.mark, .blank] ++
        e₁.asOperand .between true p₁ ++ [.blank, .text "AND", .blank] ++
          e₂.asOperand .between true p₂) := by
  have hand : d.words "AND".toList = [.key .AND] := (spells_keyword d .AND).words_eq
  have hwords : wordsIn d (e.asOperand .between false p ++
      [.blank, Operator.between.mark, .blank] ++ e₁.asOperand .between true p₁ ++
        [.blank, .text "AND", .blank] ++ e₂.asOperand .between true p₂) =
      wordsIn d (e.asOperand .between false p) ++ (Operator.between.words ++
        (wordsIn d (e₁.asOperand .between true p₁) ++
          .key .AND :: wordsIn d (e₂.asOperand .between true p₂))) := by
    simp only [wordsIn_append, wordsIn_cons, wordsIn_nil, Operator.wordsIn_mark hread, Mark.words,
      hand, List.append_assoc, List.nil_append, List.append_nil, List.singleton_append]
  refine readBack_test h rfl rfl rfl hwords (.keyword rfl rfl (by decide))
    fun {limit levels least w} hlevels hw hleast => ?_
  have hlow : Takes (expression limit levels Infix.between.right)
      (wordsIn d (e₁.asOperand .between true p₁)) e₁.regrouped (.key .AND) :=
    h₁.takes_bound (sizeOf_operand (by simp) hlevels) (.keyword rfl rfl (by decide))
  have hhigh : Takes (expression limit levels Infix.between.right)
      (wordsIn d (e₂.asOperand .between true p₂)) e₂.regrouped w :=
    h₂.takes_bound (sizeOf_operand (by simp) hlevels) hw
  exact .between rfl hleast hlow hhigh

end Operands

end BoundSql
