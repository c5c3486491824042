import BoundSql.Proofs.Grammar.Expression

/-!
# Reading queries

What the productions for queries read. A query is read as a chain of terms under set operators:
`OpensChain` says how far the chain gets, and `OpensChain.takes` that its bounding clauses follow.
-/

namespace BoundSql

open Parse Grammar

namespace TokenKind

/-- The token can stand behind a whole query. -/
def endsQuery : TokenKind → Bool
  | eof | punct .rightParen | punct .semicolon => true
  | _ => false

/-- The token can stand behind the terms of a query. -/
def endsChain (k : TokenKind) : Bool :=
  k.endsQuery || k == keyword .ORDER || k == keyword .LIMIT || k == keyword .OFFSET

/-- The token can stand behind a term of a query. -/
def endsTerm (k : TokenKind) : Bool :=
  k.endsChain || k == keyword .UNION || k == keyword .INTERSECT || k == keyword .EXCEPT

/-- The token can stand behind an expression and neither goes on with it nor names it. -/
def ends : TokenKind → Bool
  | keyword k => k.isReserved && k != .AS && (Infix.ofKeyword? k).isNone
  | k => k.endsQuery || k == punct .comma

/-- Tokens of a class are none that is not in it. -/
theorem ne_of_class {f : TokenKind → Bool} {k k' : TokenKind} (h : f k) (h' : f k' = false) :
    k ≠ k' := by
  rintro rfl
  rw [h'] at h
  cases h

theorem endsTerm_of_endsChain {k : TokenKind} (h : k.endsChain) : k.endsTerm := by
  simp [endsTerm, h]

theorem endsChain_of_endsQuery {k : TokenKind} (h : k.endsQuery) : k.endsChain := by
  simp [endsChain, h]

theorem ends_of_endsTerm {k : TokenKind} (h : k.endsTerm) : k.ends := by
  cases k with
  | keyword k => cases k <;> first | rfl | cases h
  | punct p => cases p <;> first | rfl | cases h
  | eof => rfl
  | _ => cases h

end TokenKind

namespace Word

variable {w : Word}

/-- What can stand behind an expression begins no infix form. -/
theorem closes_of_ends (h : w.kind.ends) : w.Closes := by
  unfold Closes
  generalize w.kind = k at h ⊢
  cases k with
  | keyword k =>
    simp only [TokenKind.ends, Bool.and_eq_true, Option.isNone_iff_eq_none] at h
    exact ⟨rfl, h.2⟩
  | punct p => cases p <;> first | exact ⟨rfl, rfl⟩ | cases h
  | eof => exact ⟨rfl, rfl⟩
  | _ => cases h

end Word

namespace Grammar

variable {r : Nested} {limit levels : Nat} {ws vs us : List Word} {v w : Word} {x : Expr}

theorem reads_label_none (hw : w.kind.ends) : Reads label (w :: ws) none (w :: ws) := by
  refine (reads_accept_ne (TokenKind.ne_of_class hw rfl)).bind (reads_kind.bind ?_)
  split
  · rename_i heq
    rw [heq] at hw
    cases hw
  · rename_i k heq
    rw [heq] at hw
    simp only [TokenKind.ends, Bool.and_eq_true] at hw
    rw [hw.1.1, if_pos rfl]
    exact reads_pure _
  · exact reads_pure _

/-- A result column without a name. -/
theorem takes_column (hx : x.isWildcard = false) (h : Takes (r.expr 0) ws x w)
    (hw : w.kind.ends) : Takes (column r) ws ⟨x, none⟩ w := by
  intro rest
  refine (h rest).bind ?_
  rw [hx]
  exact (reads_label_none hw).bind (reads_pure _)

/-- A SELECT with nothing but its columns. -/
theorem takes_selectCore {cs : List Column} (hv : v.kind = .keyword .SELECT)
    (hu : ∃ u us, ws = u :: us ∧ u.Begins) (h : TakesCommas (column r) w ws cs)
    (hw : w.kind.endsTerm) :
    Takes (selectCore r) (v :: ws)
      { distinct := false, distinctOn := none, columns := cs, source := none, condition := none,
        groupBy := [], having := none, orderBy := [], limit := none, offset := none } w := by
  intro rest
  obtain ⟨u, us, rfl, hbegins⟩ := hu
  have hdistinct : Reads (distinctClause r) (u :: us ++ w :: rest) (false, none)
      (u :: us ++ w :: rest) := by
    refine (reads_accept_ne hbegins.distinct).bind ?_
    exact (reads_accept_ne hbegins.all).bind (reads_pure _)
  refine (reads_word hv (by simp)).bind (hdistinct.bind ?_)
  refine (h.takes (TokenKind.ne_of_class hw rfl) rest).bind ?_
  refine (reads_afterWord_ne (TokenKind.ne_of_class hw rfl)).bind ?_
  refine (reads_afterWord_ne (TokenKind.ne_of_class hw rfl)).bind ?_
  refine (reads_afterWord_ne (TokenKind.ne_of_class hw rfl)).bind ?_
  refine (reads_afterWord_ne (TokenKind.ne_of_class hw rfl)).bind ?_
  exact reads_pure _

/-- ORDER BY with its keys, if it is there. -/
inductive TakesOrder (r : Nested) : List Word → List OrderItem → Prop
  | none : TakesOrder r [] []
  | some {u v us os} (isOrder : u.kind = .keyword .ORDER) (isBy : v.kind = .keyword .BY)
    (keys : ∀ w : Word, w.kind.endsChain → TakesCommas (orderItem r) w us os) :
    TakesOrder r (u :: v :: us) os

/-- LIMIT or OFFSET with its number of rows, if it is there. -/
inductive TakesAmount (r : Nested) (k : Keyword) : List Word → Option Expr → Prop
  | none : TakesAmount r k [] none
  | some {u us x} (isWord : u.kind = .keyword k)
    (amount : ∀ w : Word, w.kind.ends → Takes (r.expr 0) us x w) :
    TakesAmount r k (u :: us) (some x)

theorem TakesAmount.head {k : Keyword} {o : Option Expr} (h : TakesAmount r k ws o) (w : Word)
    (rest : List Word) : ∃ u us, ws ++ w :: rest = u :: us ∧ (u = w ∨ u.kind = .keyword k) := by
  cases h with
  | none => exact ⟨w, rest, rfl, .inl rfl⟩
  | some hu => exact ⟨_, _, rfl, .inr hu⟩

theorem TakesOrder.reads {os : List OrderItem} (h : TakesOrder r ws os) (hw : w.kind.endsChain)
    (hne : w.kind ≠ .keyword .ORDER) (rest : List Word) :
    ∃ o, Reads (afterWord .ORDER (do word .BY; commaSep (orderItem r))) (ws ++ w :: rest) o
      (w :: rest) ∧ o.getD [] = os := by
  cases h with
  | none => exact ⟨Option.none, reads_afterWord_ne hne, rfl⟩
  | some hu hv hkeys =>
    refine ⟨_, reads_afterWord hu (by simp) ((reads_word hv (by simp)).bind ?_), rfl⟩
    exact (hkeys w hw).takes (TokenKind.ne_of_class hw rfl) rest

theorem TakesAmount.reads_limit {o : Option Expr} (h : TakesAmount r .LIMIT ws o)
    (hw : w.kind.endsChain) (hne : w.kind ≠ .keyword .LIMIT) (rest : List Word) :
    Reads (limitClause r) (ws ++ w :: rest) (o, Option.none) (w :: rest) := by
  cases h with
  | none => exact (reads_accept_ne hne).bind (reads_pure _)
  | some hu hamount =>
    have hends := TokenKind.ends_of_endsTerm (TokenKind.endsTerm_of_endsChain hw)
    refine (reads_accept hu (by simp)).bind ((hamount w hends rest).bind ?_)
    exact (reads_accept_ne (TokenKind.ne_of_class hw rfl)).bind (reads_pure _)

/-- The clauses that bound the rows of a query. -/
inductive TakesBounds (r : Nested) : List Word → Bounds → Prop
  | intro {os ls ms orderBy limit offset} (keys : TakesOrder r os orderBy)
    (most : TakesAmount r .LIMIT ls limit) (skipped : TakesAmount r .OFFSET ms offset) :
    TakesBounds r (os ++ (ls ++ ms)) ⟨orderBy, limit, offset⟩

/-- The first word of the bounding clauses, or the word behind them. -/
theorem TakesBounds.head {b : Bounds} (h : TakesBounds r ws b) (hw : w.kind.endsChain)
    (rest : List Word) : ∃ u us, ws ++ w :: rest = u :: us ∧ u.kind.endsChain := by
  obtain @⟨os, ls, ms, _, _, _, horder, hlimit, hoffset⟩ := h
  obtain ⟨u₂, us₂, hms, hhead₂⟩ := hoffset.head w rest
  obtain ⟨u₁, us₁, hls, hhead₁⟩ := hlimit.head u₂ us₂
  have hends₂ : u₂.kind.endsChain := by
    rcases hhead₂ with rfl | h
    · exact hw
    · rw [h]
      rfl
  have hends₁ : u₁.kind.endsChain := by
    rcases hhead₁ with rfl | h
    · exact hends₂
    · rw [h]
      rfl
  simp only [List.append_assoc]
  rw [hms, hls]
  cases horder with
  | none => exact ⟨u₁, us₁, rfl, hends₁⟩
  | some hu hv =>
    refine ⟨_, _, rfl, ?_⟩
    rw [hu]
    rfl

theorem TakesBounds.takes {b : Bounds} (h : TakesBounds r ws b) (hw : w.kind.endsQuery) :
    Takes (bounds r) ws b w := by
  obtain @⟨os, ls, ms, _, _, offset, horder, hlimit, hoffset⟩ := h
  intro rest
  simp only [List.append_assoc]
  have hchain := TokenKind.endsChain_of_endsQuery hw
  have hreads : Reads (afterWord .OFFSET (r.expr 0)) (ms ++ w :: rest) offset (w :: rest) := by
    cases hoffset with
    | none => exact reads_afterWord_ne (TokenKind.ne_of_class hw rfl)
    | some hu hamount =>
      have hends := TokenKind.ends_of_endsTerm (TokenKind.endsTerm_of_endsChain hchain)
      exact reads_afterWord hu (by simp) (hamount w hends rest)
  obtain ⟨u₂, us₂, hms, hhead⟩ := hoffset.head w rest
  have hends : u₂.kind.endsChain ∧ u₂.kind ≠ .keyword .ORDER ∧ u₂.kind ≠ .keyword .LIMIT := by
    rcases hhead with rfl | h
    · exact ⟨hchain, TokenKind.ne_of_class hw rfl, TokenKind.ne_of_class hw rfl⟩
    · rw [h]
      simp [TokenKind.endsChain]
  obtain ⟨u₁, us₁, hls, hhead⟩ := hlimit.head u₂ us₂
  have hends' : u₁.kind.endsChain ∧ u₁.kind ≠ .keyword .ORDER := by
    rcases hhead with rfl | h
    · exact ⟨hends.1, hends.2.1⟩
    · rw [h]
      simp [TokenKind.endsChain]
  obtain ⟨o, ho, rfl⟩ := horder.reads hends'.1 hends'.2 us₁
  have hlimit := hlimit.reads_limit hends.1 hends.2.2 us₂
  rw [hms, hls]
  rw [hls] at hlimit
  rw [hms] at hreads
  refine ho.bind (hlimit.bind ?_)
  exact hreads.bind (reads_pure _)

/-- The words of a set operator. -/
def setOpWords : SetOp → List Word
  | .union => [.key .UNION]
  | .unionAll => [.key .UNION, .key .ALL]
  | .intersect => [.key .INTERSECT]
  | .intersectAll => [.key .INTERSECT, .key .ALL]
  | .except => [.key .EXCEPT]
  | .exceptAll => [.key .EXCEPT, .key .ALL]

theorem reads_setOp (op : SetOp) (hall : w.kind ≠ .keyword .ALL)
    (hdistinct : w.kind ≠ .keyword .DISTINCT) (rest : List Word) :
    Reads setOp (setOpWords op ++ w :: rest) (some op) (w :: rest) := by
  have hplain {plain all : SetOp} {k : Keyword} :
      Reads (setOp.variant plain all) (.key k :: w :: rest) plain (w :: rest) :=
    (reads_advance (by simp)).bind ((reads_accept_ne hall).bind
      ((reads_accept_ne hdistinct).bind (reads_pure _)))
  have hvariant {plain all : SetOp} {k : Keyword} :
      Reads (setOp.variant plain all) (.key k :: .key .ALL :: w :: rest) all (w :: rest) :=
    (reads_advance (by simp)).bind ((reads_accept rfl (by simp)).bind (reads_pure _))
  cases op
  case union => exact reads_kind.bind hplain.map
  case unionAll => exact reads_kind.bind hvariant.map
  case intersect => exact reads_kind.bind hplain.map
  case intersectAll => exact reads_kind.bind hvariant.map
  case «except» => exact reads_kind.bind hplain.map
  case exceptAll => exact reads_kind.bind hvariant.map

/-- The first term of a query and terms under set operators behind it are read as a chain, up to the
word `w`. -/
def OpensChain (r : Nested) (ws : List Word) (chain : Compound) (w : Word) : Prop :=
  ∀ rest, ∃ vs first, Reads (queryTerm r) (ws ++ w :: rest) first vs ∧
    Steps (branchStep r) vs (.ofBranches .union [first]) (w :: rest) chain

theorem OpensChain.of_takes {q : Query} (h : Takes (queryTerm r) ws q w) :
    OpensChain r ws (.ofBranches .union [q]) w :=
  fun rest => ⟨_, q, h rest, .refl⟩

/-- One more term. -/
theorem OpensChain.branch {chain : Compound} {op : SetOp} {q : Query} {v : Word}
    {us : List Word} (h : OpensChain r ws chain v) (hv : v :: vs = setOpWords op)
    (hus : ∃ u us', us = u :: us' ∧ u.kind ≠ .keyword .ALL ∧ u.kind ≠ .keyword .DISTINCT)
    (hq : Takes (queryTerm r) us q w) :
    OpensChain r (ws ++ (setOpWords op ++ us)) (addBranch chain op q) w := by
  intro rest
  obtain ⟨u, us, rfl, hall, hdistinct⟩ := hus
  obtain ⟨vs', first, hfirst, hsteps⟩ := h (vs ++ (u :: us ++ w :: rest))
  refine ⟨vs', first, ?_, hsteps.trans (.single ?_ ?_)⟩
  · rw [← hv]
    simpa only [List.append_assoc, List.cons_append] using hfirst
  · rw [← List.cons_append, hv]
    exact (reads_setOp op hall hdistinct (us ++ w :: rest)).bind ((hq rest).bind (reads_pure _))
  · simp
    omega

/-- A query: its chain and the clauses that bound its rows. -/
theorem OpensChain.takes {chain : Compound} {b : Bounds}
    (h : ∀ w : Word, w.kind.endsChain → OpensChain (below limit levels) ws chain w)
    (hchain : chain.reduce.isBounded = false) (hb : TakesBounds (below limit levels) vs b)
    (hw : w.kind.endsQuery) :
    Takes (query limit (levels + 1)) (ws ++ vs) (withBounds b chain.reduce) w := by
  intro rest
  obtain ⟨u, us, hus, hu⟩ := hb.head (TokenKind.endsChain_of_endsQuery hw) rest
  obtain ⟨vs', first, hfirst, hsteps⟩ := h u hu us
  have hstop : Reads (branchStep (below limit levels) chain) (u :: us) none (u :: us) := by
    have hsetOp : Reads setOp (u :: us) none (u :: us) := by
      refine reads_kind.bind ?_
      split
      · exact absurd ‹_› (TokenKind.ne_of_class hu rfl)
      · exact absurd ‹_› (TokenKind.ne_of_class hu rfl)
      · exact absurd ‹_› (TokenKind.ne_of_class hu rfl)
      · exact reads_pure _
    exact hsetOp.bind (reads_pure _)
  have hbounds := hb.takes hw rest
  rw [List.append_assoc]
  rw [hus] at hbounds ⊢
  refine hfirst.bind ((hsteps.reads hstop).bind ?_)
  dsimp only
  rw [hchain]
  exact hbounds.bind (reads_pure _)

theorem takes_queryTerm_select {s : Select} {u : Word} (hu : u.kind ≠ .punct .leftParen)
    (h : Takes (selectCore r) (u :: ws) s w) : Takes (queryTerm r) (u :: ws) (.select s) w := by
  intro rest
  refine (reads_isAt _).bind ?_
  rw [beq_eq_false_iff_ne.2 hu]
  exact (h rest).map

end Grammar

end BoundSql
