import BoundSql.Proofs.Grammar.Related

/-!
# What a grammar yields

`Yields P p` says that every value that `p` can yield has the property `P`, whatever the tokens are,
and `YieldsOn T P p` that this is so if the tokens have the property `T`. There is a rule for each
way in which computations are put together.
-/

namespace BoundSql

namespace Cursor

/-- The tokens from this place on have the property. -/
def Among (T : Token → Prop) (s : Cursor) : Prop := ∀ t ∈ s.current :: s.following, T t

variable {T : Token → Prop} {s : Cursor}

theorem Among.of_forall (h : ∀ t, T t) : s.Among T := fun t _ => h t

theorem Among.current (h : s.Among T) : T s.current := h _ List.mem_cons_self

theorem Among.next (h : s.Among T) : s.next.Among T := by
  obtain ⟨current, following⟩ := s
  cases following with
  | nil => exact h
  | cons t ts => exact fun u member => h u (List.mem_cons_of_mem _ member)

end Cursor

end BoundSql

namespace BoundSql.Parse

variable {α β σ : Type} {T : Token → Prop} {P P' : α → Prop} {Q : β → Prop} {p : Parse α}
  {q : α → Parse β}

/-- If two computations in a row succeed, so does each. -/
theorem run_bind_eq_ok {s s' : Cursor} {y : β} (run : (p >>= q).run s = .ok (y, s')) :
    ∃ x s₁, p.run s = .ok (x, s₁) ∧ (q x).run s₁ = .ok (y, s') := by
  rw [StateT.run_bind] at run
  cases first : p.run s with
  | error e =>
    rw [first] at run
    cases run
  | ok result =>
    rw [first] at run
    exact ⟨result.1, result.2, rfl, run⟩

/-- A computation that looks at the current token goes on with it, from the same place. -/
theorem run_current_bind (f : Token → Parse β) (s : Cursor) :
    (current >>= f).run s = (f s.current).run s := rfl

theorem run_kind_bind (f : TokenKind → Parse β) (s : Cursor) :
    (kind >>= f).run s = (f s.current.kind).run s := rfl

theorem run_nextKind_bind (f : TokenKind → Parse β) (s : Cursor) :
    (nextKind >>= f).run s = (f s.next.current.kind).run s := rfl

theorem run_advance_bind (f : Unit → Parse β) (s : Cursor) :
    (advance >>= f).run s = (f ()).run s.next := rfl

theorem run_isAt_bind (k : TokenKind) (f : Bool → Parse β) (s : Cursor) :
    (isAt k >>= f).run s = (f (s.current.kind == k)).run s := rfl

theorem run_accept_bind (k : TokenKind) (f : Bool → Parse β) (s : Cursor) : (accept k >>= f).run s =
    if s.current.kind = k then (f true).run s.next else (f false).run s := by
  have branch : (accept k >>= f).run s = ((if s.current.kind == k then do advance; return true
    else return false : Parse Bool) >>= f).run s := rfl
  rw [branch]
  by_cases here : s.current.kind = k
  · rw [if_pos here, if_pos (beq_iff_eq.2 here)]
    rfl
  · rw [if_neg here, if_neg (by simpa using here)]
    rfl

/-- On tokens with the property `T`, all that the computation can yield has the property `P`, and
the computation stays among these tokens. -/
def YieldsOn (T : Token → Prop) (P : α → Prop) (p : Parse α) : Prop :=
  ∀ s x s', s.Among T → p.run s = .ok (x, s') → P x ∧ s'.Among T

/-- All that the computation can yield has the property. -/
abbrev Yields (P : α → Prop) (p : Parse α) : Prop := YieldsOn (fun _ => True) P p

theorem Yields.of_run (h : Yields P p) {s s' : Cursor} {x : α} (run : p.run s = .ok (x, s')) : P x :=
  (h s x s' (.of_forall fun _ => trivial) run).1

theorem yields_of_run (h : ∀ s x s', p.run s = .ok (x, s') → P x) : Yields P p :=
  fun s x s' _ run => ⟨h s x s' run, .of_forall fun _ => trivial⟩

theorem yields_pure {x : α} (h : P x) : YieldsOn T P (pure x) := by
  intro s y s' among run
  cases run
  exact ⟨h, among⟩

theorem yields_failWith (cause : ParseCause) : YieldsOn T P (failWith cause : Parse α) := by
  intro s x s' _ run
  cases run

theorem yields_fail (what : String) : YieldsOn T P (fail what : Parse α) := yields_failWith _

theorem YieldsOn.bind (hp : YieldsOn T P p) (hq : ∀ x, P x → YieldsOn T Q (q x)) :
    YieldsOn T Q (p >>= q) := by
  intro s y s' among run
  obtain ⟨x, s₁, first, rest⟩ := run_bind_eq_ok run
  obtain ⟨hx, among'⟩ := hp s x s₁ among first
  exact hq x hx s₁ y s' among' rest

/-- What comes out of the first computation does not matter, nor where it goes. -/
theorem yields_after (hq : ∀ x, Yields Q (q x)) : Yields Q (p >>= q) := by
  refine yields_of_run fun s y s' run => ?_
  obtain ⟨x, s₁, -, rest⟩ := run_bind_eq_ok run
  exact (hq x).of_run rest

theorem YieldsOn.mono (hp : YieldsOn T P p) (h : ∀ x, P x → P' x) : YieldsOn T P' p := by
  intro s x s' among run
  exact (hp s x s' among run).imp_left (h x)

theorem YieldsOn.map {f : α → β} (hp : YieldsOn T P p) (h : ∀ x, P x → Q (f x)) :
    YieldsOn T Q (f <$> p) := by
  rw [← bind_pure_comp]
  exact hp.bind fun x hx => yields_pure (h x hx)

theorem yields_mapped {f : α → β} (h : ∀ x, Q (f x)) : Yields Q (f <$> p) := by
  rw [← bind_pure_comp]
  exact yields_after fun x => yields_pure (h x)

theorem YieldsOn.some (hp : YieldsOn T P p) :
    YieldsOn T (fun o : Option α => ∀ x ∈ o, P x) (some <$> p) := by
  refine hp.map fun x hx y hy => ?_
  cases hy
  exact hx

theorem yields_none : YieldsOn T (fun o : Option α => ∀ x ∈ o, P x) (pure none) := by
  apply yields_pure
  intro x hx
  cases hx

/-! ## Computations that stay among the tokens -/

/-- The computation moves on over tokens, and does nothing else to them. -/
class Advances (p : Parse α) : Prop where
  among : ∀ T, YieldsOn T (fun _ => True) p

theorem advances_run (h : ∀ s x s', p.run s = .ok (x, s') → s' = s) : Advances p where
  among _ s x s' among run := ⟨trivial, h s x s' run ▸ among⟩

/-- What comes out of the first computation does not matter. -/
theorem yields_behind [h : Advances p] (hq : ∀ x, YieldsOn T Q (q x)) : YieldsOn T Q (p >>= q) :=
  (h.among T).bind fun x _ => hq x

theorem yields_mapping [h : Advances p] {f : α → β} (hf : ∀ x, Q (f x)) : YieldsOn T Q (f <$> p) :=
  (h.among T).map fun x _ => hf x

/-- A branch on the current token. -/
theorem yields_current {q : Token → Parse β} (h : ∀ t, T t → YieldsOn T Q (q t)) :
    YieldsOn T Q (current >>= q) :=
  fun s x s' among run => h s.current among.current s x s' among run

/-- A branch on what the current token means. -/
theorem yields_kind {q : TokenKind → Parse β} (h : ∀ t, T t → YieldsOn T Q (q t.kind)) :
    YieldsOn T Q (kind >>= q) :=
  fun s x s' among run => h s.current among.current s x s' among run

/-- Computations that move on, as a relation that the grammar respects. -/
def advancing : Congruence where
  Rel p _ := Advances p
  pure x := ⟨fun _ => yields_pure trivial⟩
  bind hp hq := ⟨fun T => (hp.among T).bind fun x _ => (hq x).among T⟩
  failWith cause := ⟨fun _ => yields_failWith cause⟩
  advance := by
    refine ⟨fun T s x s' among run => ?_⟩
    cases run
    exact ⟨trivial, among.next⟩
  kind := advances_run fun _ _ _ run => by cases run; rfl
  nextKind := advances_run fun _ _ _ run => by cases run; rfl
  current _ hq := ⟨fun T => yields_current fun t _ => (hq t).among T⟩
  count _ hq := ⟨fun T s x s' among run => (hq s).among T s x s' among run⟩

instance (x : α) : Advances (pure x : Parse α) := advancing.pure x
instance : Advances advance := advancing.advance
instance : Advances kind := advancing.kind
instance : Advances nextKind := advancing.nextKind
instance : Advances current := advances_run fun _ _ _ run => by cases run; rfl
instance : Advances (get : Parse Cursor) := advances_run fun _ _ _ run => by cases run; rfl
instance (k : TokenKind) : Advances (isAt k) := Congruence.rel_isAt (R := advancing) k
instance (k : TokenKind) : Advances (accept k) := Congruence.rel_accept (R := advancing) k
instance (k : Keyword) : Advances (acceptWord k) := Congruence.rel_acceptWord (R := advancing) k
instance (p : Punct) : Advances (acceptSign p) := Congruence.rel_acceptSign (R := advancing) p
instance (k : Keyword) : Advances (word k) := Congruence.rel_word (R := advancing) k
instance (p : Punct) : Advances (sign p) := Congruence.rel_sign (R := advancing) p
instance (what : String) : Advances (name what) := Congruence.rel_name (R := advancing) what
instance : Advances memberName := Congruence.rel_memberName (R := advancing)
instance (what : String) : Advances (qualifiedName what) :=
  Congruence.rel_qualifiedName (R := advancing) what
instance : Advances columnNames := Congruence.rel_columnNames (R := advancing)
instance [h : Advances p] (k : Keyword) : Advances (afterWord k p) :=
  Congruence.rel_afterWord k (show advancing.Rel p p from h)
instance [h : Advances p] : Advances (parenthesized p) :=
  Congruence.rel_parenthesized (show advancing.Rel p p from h)
instance [h : Advances p] : Advances (commaSep p) :=
  Congruence.rel_commaSep (show advancing.Rel p p from h)

/-! ## The combinators of the grammar -/

theorem yields_afterWord (k : Keyword) (hp : YieldsOn T P p) :
    YieldsOn T (fun o => ∀ x ∈ o, P x) (afterWord k p) := by
  refine yields_behind fun here => ?_
  split
  · exact hp.some
  · exact yields_none

theorem yields_parenthesized (hp : YieldsOn T P p) : YieldsOn T P (parenthesized p) :=
  yields_behind fun _ => hp.bind fun _ hx => yields_behind fun _ => yields_pure hx

section Repeat

variable {I : σ → Prop} {step : σ → Parse (Option σ)}

theorem yields_repeatFrom (hstep : ∀ s, I s → YieldsOn T (fun o => ∀ s' ∈ o, I s') (step s))
    (fuel : Nat) {s : σ} (hs : I s) : YieldsOn T I (repeatFrom step fuel s) := by
  induction fuel generalizing s with
  | zero => exact yields_pure hs
  | succ fuel ih =>
    refine (hstep s hs).bind fun more hmore => ?_
    cases more with
    | none => exact yields_pure hs
    | some s' => exact ih (hmore s' rfl)

/-- What each step preserves holds when there is nothing left to do. -/
theorem yields_repeatStep (hstep : ∀ s, I s → YieldsOn T (fun o => ∀ s' ∈ o, I s') (step s)) {s : σ}
    (hs : I s) : YieldsOn T I (repeatStep step s) :=
  yields_behind fun _ => yields_repeatFrom hstep _ hs

end Repeat

theorem yields_commaSepFrom (hp : YieldsOn T P p) (fuel : Nat) :
    YieldsOn T (fun xs => xs ≠ [] ∧ ∀ x ∈ xs, P x) (commaSepFrom p fuel) := by
  have single {x : α} (hx : P x) : [x] ≠ [] ∧ ∀ y ∈ [x], P y := by simp [hx]
  induction fuel with
  | zero => exact hp.bind fun x hx => yields_pure (single hx)
  | succ fuel ih =>
    refine hp.bind fun x hx => yields_behind fun more => ?_
    split
    · refine ih.bind fun xs hxs => yields_pure ⟨List.cons_ne_nil x xs, ?_⟩
      exact List.forall_mem_cons.2 ⟨hx, hxs.2⟩
    · exact yields_pure (single hx)

/-- Between commas stands at least one item. -/
theorem yields_commaSep (hp : YieldsOn T P p) :
    YieldsOn T (fun xs => xs ≠ [] ∧ ∀ x ∈ xs, P x) (commaSep p) :=
  yields_behind fun _ => yields_commaSepFrom hp _

end BoundSql.Parse

namespace BoundSql

open Parse

/-- What stands behind the tree of a statement does not change it. -/
theorem Grammar.yields_statement {T : Token → Prop} {P : Body → Prop} {limit : Nat}
    (h : YieldsOn T P (body (nested limit))) : YieldsOn T P (statement limit) := by
  refine h.bind fun b hb => yields_behind fun _ => yields_behind fun ended => ?_
  split
  · exact yields_pure hb
  · exact (yields_fail (P := fun _ => True) _).bind fun _ _ => yields_pure hb

/-- A tree that tokens are read as is one that the grammar of statements yields on such tokens. -/
theorem Body.of_ofTokens_among {T : Token → Prop} {P : Body → Prop} {limit : Nat} {ts : List Token}
    {b : Body} (h : YieldsOn T P (Grammar.body (Grammar.nested limit)))
    (among : (Cursor.ofTokens ts).Among T) (read : Body.ofTokens limit ts = .ok b) : P b := by
  rw [Body.ofTokens] at read
  cases run : (Grammar.statement limit).run (Cursor.ofTokens ts) with
  | error e =>
    rw [run] at read
    cases read
  | ok result =>
    rw [run] at read
    cases read
    exact (Grammar.yields_statement h _ _ result.2 among run).1

/-- A tree that tokens are read as is one that the grammar of statements yields. -/
theorem Body.of_ofTokens {P : Body → Prop} {limit : Nat} {ts : List Token} {b : Body}
    (h : Yields P (Grammar.body (Grammar.nested limit)))
    (read : Body.ofTokens limit ts = .ok b) : P b :=
  of_ofTokens_among h (.of_forall fun _ => trivial) read

end BoundSql
