import BoundSql.Grammar.Statement

/-!
# Relations that the grammar respects

A `Congruence` relates computations that read tokens and goes through the constructs that the
grammar is made of: binding, failing, moving on, and looking at what the current token means and how
it is written. What the rules share by way of combinators is related as well, so a relation between
the ways of reading expressions and queries carries over to all that is built from them.
-/

namespace BoundSql

open Parse

/-- A relation between computations that respects how the grammar reads tokens. -/
structure Congruence where
  Rel : ∀ {α : Type}, Parse α → Parse α → Prop
  pure : ∀ {α : Type} (x : α), Rel (pure x) (pure x)
  bind : ∀ {α β : Type} {p p' : Parse α} {q q' : α → Parse β}, Rel p p' → (∀ x, Rel (q x) (q' x)) →
    Rel (p >>= q) (p' >>= q')
  failWith : ∀ {α : Type} (cause : ParseCause), Rel (failWith cause : Parse α) (failWith cause)
  advance : Rel advance advance
  kind : Rel kind kind
  nextKind : Rel nextKind nextKind
  /-- What is done with the current token depends on what it means and how it is written. -/
  current : ∀ {α : Type} {q q' : Token → Parse α},
    (∀ t t', t.kind = t'.kind → t.lexeme = t'.lexeme → q t = q t') → (∀ t, Rel (q t) (q' t)) →
    Rel (current >>= q) (current >>= q')
  /-- What is done with the place depends on the number of tokens behind it. -/
  count : ∀ {α : Type} {q q' : Cursor → Parse α},
    (∀ c c', c.following.length = c'.following.length → q c = q c') → (∀ c, Rel (q c) (q' c)) →
    Rel (get >>= q) (get >>= q')

namespace Congruence

variable {R : Congruence} {α β σ : Type} {p p' : Parse α}

theorem Rel.bind {q q' : α → Parse β} (hp : R.Rel p p') (hq : ∀ x, R.Rel (q x) (q' x)) :
    R.Rel (p >>= q) (p' >>= q') := R.bind hp hq

theorem rel_pure (x : α) : R.Rel (Pure.pure x) (Pure.pure x) := R.pure x

theorem Rel.map {g : α → β} (hp : R.Rel p p') : R.Rel (g <$> p) (g <$> p') := by
  rw [← bind_pure_comp, ← bind_pure_comp]
  exact hp.bind fun x => rel_pure (g x)

theorem rel_fail (what : String) : R.Rel (fail what : Parse α) (fail what) := R.failWith _

theorem rel_isAt (k : TokenKind) : R.Rel (isAt k) (isAt k) := R.kind.bind fun _ => rel_pure _

theorem rel_accept (k : TokenKind) : R.Rel (accept k) (accept k) := by
  refine (rel_isAt k).bind fun here => ?_
  split
  · exact R.advance.bind fun _ => rel_pure true
  · exact rel_pure false

theorem rel_acceptWord (k : Keyword) : R.Rel (acceptWord k) (acceptWord k) := rel_accept _

theorem rel_acceptSign (s : Punct) : R.Rel (acceptSign s) (acceptSign s) := rel_accept _

theorem rel_word (k : Keyword) : R.Rel (word k) (word k) := by
  refine (rel_acceptWord k).bind fun here => ?_
  split
  · exact rel_pure ()
  · exact rel_fail _

theorem rel_sign (s : Punct) : R.Rel (sign s) (sign s) := by
  refine (rel_acceptSign s).bind fun here => ?_
  split
  · exact rel_pure ()
  · exact rel_fail _

theorem rel_afterWord (k : Keyword) (hp : R.Rel p p') : R.Rel (afterWord k p) (afterWord k p') := by
  refine (rel_acceptWord k).bind fun here => ?_
  split
  · exact hp.map
  · exact rel_pure none

theorem rel_name (what : String) : R.Rel (name what) (name what) := by
  refine R.current (fun t t' kind lexeme => ?_) fun t => ?_
  · simp only [Token.text, kind, lexeme]
  · split
    · exact R.advance.bind fun _ => rel_pure _
    · split
      · exact rel_fail what
      · exact R.advance.bind fun _ => rel_pure _
    · exact rel_fail what

theorem rel_memberName : R.Rel memberName memberName := by
  refine R.current (fun t t' kind lexeme => ?_) fun t => ?_
  · simp only [Token.text, kind, lexeme]
  · split
    · exact R.advance.bind fun _ => rel_pure _
    · exact rel_name _

theorem rel_repeatFrom {step step' : σ → Parse (Option σ)} (h : ∀ s, R.Rel (step s) (step' s))
    (fuel : Nat) (s : σ) : R.Rel (repeatFrom step fuel s) (repeatFrom step' fuel s) := by
  induction fuel generalizing s with
  | zero => exact rel_pure s
  | succ fuel ih =>
    refine (h s).bind fun more => ?_
    cases more with
    | none => exact rel_pure s
    | some s' => exact ih s'

theorem rel_repeatStep {step step' : σ → Parse (Option σ)} (h : ∀ s, R.Rel (step s) (step' s))
    (s : σ) : R.Rel (repeatStep step s) (repeatStep step' s) := by
  apply R.count
  · intro c c' same
    rw [same]
  · intro c
    exact rel_repeatFrom h _ s

theorem rel_commaSepFrom (h : R.Rel p p') (fuel : Nat) :
    R.Rel (commaSepFrom p fuel) (commaSepFrom p' fuel) := by
  induction fuel with
  | zero => exact h.bind fun x => rel_pure [x]
  | succ fuel ih =>
    refine h.bind fun x => (rel_acceptSign .comma).bind fun more => ?_
    split
    · exact ih.bind fun xs => rel_pure (x :: xs)
    · exact rel_pure [x]

theorem rel_commaSep (h : R.Rel p p') : R.Rel (commaSep p) (commaSep p') := by
  apply R.count
  · intro c c' same
    rw [same]
  · intro c
    exact rel_commaSepFrom h _

theorem rel_parenthesized (h : R.Rel p p') : R.Rel (parenthesized p) (parenthesized p') :=
  (rel_sign .leftParen).bind fun _ => h.bind fun x =>
    (rel_sign .rightParen).bind fun _ => rel_pure x

theorem rel_qualifiedName (what : String) : R.Rel (qualifiedName what) (qualifiedName what) := by
  refine (rel_name what).bind fun first => ?_
  refine (rel_repeatStep (fun parts => ?_) [first]).bind fun parts => rel_pure _
  refine (rel_acceptSign .dot).bind fun dot => ?_
  split
  · exact rel_memberName.bind fun part => rel_pure (some (parts ++ [part]))
  · exact rel_pure none

theorem rel_columnNames : R.Rel columnNames columnNames := rel_commaSep (rel_name _)

end Congruence

end BoundSql
