import BoundSql.Grammar.Cursor
import BoundSql.Proofs.Token.Word

/-!
# Reading words

A `Parse` computation `Reads` words as a value if it does so wherever the words stand. What it reads
depends on the words only, so that the rules below speak of lists of words.
-/

namespace BoundSql

open Parse

namespace Word

/-- The word is a name behind a point: an identifier as it is written, or any keyword. -/
def IsMember (w : Word) : Prop := w.kind = .identifier w.text ∨ ∃ k, w.kind = .keyword k

/-- The word is a name: an identifier as it is written, or a keyword that is not reserved. -/
def IsName (w : Word) : Prop :=
  w.kind = .identifier w.text ∨ ∃ k, w.kind = .keyword k ∧ k.isReserved = false

theorem IsName.isMember {w : Word} (h : w.IsName) : w.IsMember :=
  h.imp_right fun ⟨k, hk, _⟩ => ⟨k, hk⟩

theorem IsName.ne_punct {w : Word} (h : w.IsName) (p : Punct) : w.kind ≠ .punct p := by
  rcases h with h | ⟨k, h, _⟩ <;> rw [h] <;> simp

/-- A name is no reserved keyword. -/
theorem IsName.ne_keyword {w : Word} (h : w.IsName) {k : Keyword} (hk : k.isReserved) :
    w.kind ≠ .keyword k := by
  rcases h with h | ⟨word, h, hfree⟩
  · rw [h]
    simp
  · rw [h]
    rintro ⟨⟩
    rw [hk] at hfree
    cases hfree

end Word

namespace Cursor

/-- The words at and behind the current token. -/
def words (c : Cursor) : List Word := c.current.toWord :: c.following.map Token.toWord

theorem words_next {c : Cursor} {w : Word} {ws : List Word} (h : c.words = w :: ws)
    (hne : ws ≠ []) : c.next.words = ws := by
  obtain ⟨current, following⟩ := c
  cases following with
  | nil =>
    injection h with _ h
    exact absurd h.symm hne
  | cons t ts =>
    injection h

theorem words_ofTokens {ts : List Token} (h : ts ≠ []) :
    (ofTokens ts).words = ts.map Token.toWord := by
  cases ts with
  | nil => exact absurd rfl h
  | cons t ts => rfl

end Cursor

namespace Parse

variable {α β σ : Type} {ws vs us : List Word} {w : Word}

/-- In front of the words `ws` the computation yields `x` and stops in front of `vs`. -/
def Reads (p : Parse α) (ws : List Word) (x : α) (vs : List Word) : Prop :=
  ∀ c : Cursor, c.words = ws → ∃ c', p c = .ok (x, c') ∧ c'.words = vs

theorem reads_pure (x : α) : Reads (pure x) ws x ws := fun c h => ⟨c, rfl, h⟩

theorem Reads.bind {p : Parse α} {f : α → Parse β} {x : α} {y : β} (hp : Reads p ws x vs)
    (hf : Reads (f x) vs y us) : Reads (p >>= f) ws y us := by
  intro c h
  obtain ⟨c', hp, h'⟩ := hp c h
  obtain ⟨c'', hf, h''⟩ := hf c' h'
  refine ⟨c'', ?_, h''⟩
  change (p >>= f).run c = _
  rw [StateT.run_bind]
  change (p c >>= _) = _
  rw [hp]
  exact hf

theorem Reads.map {p : Parse α} {f : α → β} {x : α} (hp : Reads p ws x vs) :
    Reads (f <$> p) ws (f x) vs := by
  rw [← bind_pure_comp]
  exact hp.bind (reads_pure _)

theorem reads_kind : Reads kind (w :: ws) w.kind (w :: ws) := by
  intro c h
  refine ⟨c, ?_, h⟩
  injection h with h
  rw [← h]
  rfl

theorem reads_nextKind {v : Word} : Reads nextKind (w :: v :: ws) v.kind (w :: v :: ws) := by
  intro c h
  refine ⟨c, ?_, h⟩
  have h := Cursor.words_next h (by simp)
  injection h with h
  rw [← h]
  rfl

/-- What is done with the current token may depend on its word only. -/
theorem reads_current {f : Token → Parse α} {x : α}
    (h : ∀ t : Token, t.toWord = w → Reads (f t) (w :: ws) x vs) :
    Reads (current >>= f) (w :: ws) x vs := by
  intro c hc
  have hcurrent : c.current.toWord = w := by
    injection hc
  exact h c.current hcurrent c hc

/-- What is done with the place may depend on the words there only. -/
theorem reads_get {f : Cursor → Parse α} {x : α}
    (h : ∀ c : Cursor, c.words = ws → Reads (f c) ws x vs) : Reads (get >>= f) ws x vs :=
  fun c hc => h c hc c hc

theorem reads_advance (hne : ws ≠ []) : Reads advance (w :: ws) () ws :=
  fun c h => ⟨c.next, rfl, Cursor.words_next h hne⟩

theorem reads_isAt (k : TokenKind) : Reads (isAt k) (w :: ws) (w.kind == k) (w :: ws) :=
  reads_kind.bind (reads_pure _)

theorem reads_accept {k : TokenKind} (hw : w.kind = k) (hne : ws ≠ []) :
    Reads (accept k) (w :: ws) true ws := by
  refine (reads_isAt k).bind ?_
  rw [hw, beq_self_eq_true]
  exact (reads_advance hne).bind (reads_pure _)

theorem reads_accept_ne {k : TokenKind} (hw : w.kind ≠ k) :
    Reads (accept k) (w :: ws) false (w :: ws) := by
  refine (reads_isAt k).bind ?_
  rw [beq_eq_false_iff_ne.2 hw]
  exact reads_pure _

theorem reads_word {k : Keyword} (hw : w.kind = .keyword k) (hne : ws ≠ []) :
    Reads (word k) (w :: ws) () ws :=
  (reads_accept hw hne).bind (reads_pure _)

theorem reads_sign {p : Punct} (hw : w.kind = .punct p) (hne : ws ≠ []) :
    Reads (sign p) (w :: ws) () ws :=
  (reads_accept hw hne).bind (reads_pure _)

theorem reads_afterWord {k : Keyword} {p : Parse α} {x : α} (hw : w.kind = .keyword k)
    (hne : ws ≠ []) (hp : Reads p ws x vs) : Reads (afterWord k p) (w :: ws) (some x) vs :=
  (reads_accept hw hne).bind hp.map

theorem reads_afterWord_ne {k : Keyword} {p : Parse α} (hw : w.kind ≠ .keyword k) :
    Reads (afterWord k p) (w :: ws) none (w :: ws) :=
  (reads_accept_ne hw).bind (reads_pure _)

theorem reads_name {what : String} (hw : w.IsName) (hne : ws ≠ []) :
    Reads (name what) (w :: ws) w.text ws := by
  refine reads_current fun t ht => ?_
  subst ht
  rcases hw with hw | ⟨k, hk, hfree⟩
  · rw [Token.toWord_kind] at hw
    rw [hw]
    exact (reads_advance hne).bind (reads_pure _)
  · rw [Token.toWord_kind] at hk
    rw [hk]
    dsimp only
    rw [hfree]
    exact (reads_advance hne).bind (reads_pure _)

theorem reads_memberName (hw : w.IsMember) (hne : ws ≠ []) :
    Reads memberName (w :: ws) w.text ws := by
  refine reads_current fun t ht => ?_
  subst ht
  rcases hw with hw | ⟨k, hk⟩
  · have hname : Reads (name "identifier") (t.toWord :: ws) t.toWord.text ws :=
      reads_name (.inl hw) hne
    rw [Token.toWord_kind] at hw
    rw [hw]
    exact hname
  · rw [Token.toWord_kind] at hk
    rw [hk]
    exact (reads_advance hne).bind (reads_pure _)

/-- In front of the words `ws` the computation fails. -/
def Refuses (p : Parse α) (ws : List Word) : Prop :=
  ∀ c : Cursor, c.words = ws → ∃ e, p c = .error e

theorem Refuses.bind {p : Parse α} {f : α → Parse β} (hp : Refuses p ws) :
    Refuses (p >>= f) ws := by
  intro c h
  obtain ⟨e, hp⟩ := hp c h
  refine ⟨e, ?_⟩
  change (p c >>= _) = _
  rw [hp]
  rfl

theorem Refuses.map {p : Parse α} {f : α → β} (hp : Refuses p ws) : Refuses (f <$> p) ws := by
  rw [← bind_pure_comp]
  exact hp.bind

/-- Steps of a loop, each of which takes up some words. -/
inductive Steps (step : σ → Parse (Option σ)) : List Word → σ → List Word → σ → Prop
  | refl {ws s} : Steps step ws s ws s
  | head {ws s vs s' us s''} (first : Reads (step s) ws (some s') vs)
    (shorter : vs.length < ws.length) (others : Steps step vs s' us s'') : Steps step ws s us s''

namespace Steps

variable {step : σ → Parse (Option σ)} {s s' s'' : σ}

theorem single (h : Reads (step s) ws (some s') vs) (hlt : vs.length < ws.length) :
    Steps step ws s vs s' := .head h hlt .refl

theorem trans (h : Steps step ws s vs s') (h' : Steps step vs s' us s'') :
    Steps step ws s us s'' := by
  induction h with
  | refl => exact h'
  | head hfirst hlt _ ih => exact .head hfirst hlt (ih h')

/-- Steps up to words with which the loop has nothing to do are what the loop does. -/
theorem reads (h : Steps step ws s vs s') (hstop : Reads (step s') vs none vs) :
    Reads (repeatStep step s) ws s' vs := by
  have hfrom : ∀ fuel, ws.length ≤ fuel → Reads (repeatFrom step fuel s) ws s' vs := by
    induction h with
    | refl =>
      intro fuel _
      cases fuel with
      | zero => exact reads_pure _
      | succ fuel => exact hstop.bind (reads_pure _)
    | head hfirst hlt _ ih =>
      intro fuel hfuel
      cases fuel with
      | zero => omega
      | succ fuel => exact hfirst.bind (ih hstop fuel (by omega))
  intro c hc
  have hlen : ws.length ≤ c.following.length + 1 := by
    rw [← hc]
    simp [Cursor.words]
  exact hfrom _ hlen c hc

end Steps

/-- In front of the word `w` the words `ws` are read as `x`, whatever follows. -/
def Takes (p : Parse α) (ws : List Word) (x : α) (w : Word) : Prop :=
  ∀ rest, Reads p (ws ++ w :: rest) x (w :: rest)

/-- Items read up to commas, and the last one up to `w`. -/
inductive TakesCommas (item : Parse α) (w : Word) : List Word → List α → Prop
  | one {ws x} (only : Takes item ws x w) : TakesCommas item w ws [x]
  | cons {ws x vs xs} {comma : Word} (isComma : comma.kind = .punct .comma)
    (first : Takes item ws x comma) (others : TakesCommas item w vs xs) :
    TakesCommas item w (ws ++ comma :: vs) (x :: xs)

theorem TakesCommas.takes {item : Parse α} {xs : List α} (h : TakesCommas item w ws xs)
    (hw : w.kind ≠ .punct .comma) : Takes (commaSep item) ws xs w := by
  intro rest
  have hfrom : ∀ fuel, (ws ++ w :: rest).length ≤ fuel + 1 →
      Reads (commaSepFrom item fuel) (ws ++ w :: rest) xs (w :: rest) := by
    induction h with
    | one honly =>
      intro fuel _
      cases fuel with
      | zero => exact (honly rest).bind (reads_pure _)
      | succ fuel => exact (honly rest).bind ((reads_accept_ne hw).bind (reads_pure _))
    | @cons us y vs ys comma hcomma hfirst hothers ih =>
      intro fuel hfuel
      simp only [List.append_assoc, List.cons_append, List.length_append, List.length_cons] at hfuel ih ⊢
      cases fuel with
      | zero => omega
      | succ fuel =>
        refine (hfirst _).bind ((reads_accept hcomma (by simp)).bind ?_)
        exact (ih fuel (by omega)).bind (reads_pure _)
  intro c hc
  have hlen : (ws ++ w :: rest).length ≤ c.following.length + 1 := by
    rw [← hc]
    simp [Cursor.words]
  exact hfrom _ hlen c hc

/-- A clause behind its keyword and up to the word `w`, if there is one. -/
inductive TakesAfter (k : Keyword) (p : Parse α) (w : Word) : List Word → Option α → Prop
  | none : TakesAfter k p w [] none
  | some {v ws x} (isWord : v.kind = .keyword k) (clause : Takes p ws x w) :
    TakesAfter k p w (v :: ws) (some x)

theorem TakesAfter.takes {k : Keyword} {p : Parse α} {o : Option α} (h : TakesAfter k p w ws o)
    (hw : w.kind ≠ .keyword k) : Takes (afterWord k p) ws o w := by
  intro rest
  cases h with
  | none => exact reads_afterWord_ne hw
  | some hv h => exact reads_afterWord hv (by simp) (h rest)

theorem Takes.parenthesized {p : Parse α} {x : α} {left right : Word}
    (hleft : left.kind = .punct .leftParen) (hright : right.kind = .punct .rightParen)
    (h : Takes p ws x right) (w : Word) : Takes (parenthesized p) (left :: ws ++ [right]) x w := by
  intro rest
  simp only [List.cons_append, List.append_assoc, List.nil_append]
  refine (reads_sign hleft (by simp)).bind ((h _).bind ?_)
  exact (reads_sign hright (by simp)).bind (reads_pure _)

end Parse

end BoundSql
