import BoundSql.Proofs.Grammar.Related

/-!
# What the grammar does not look at

What is read with some levels of nesting is read in the same way with more of them, unless it
overflows with the fewer: `Body.ofTokens_of_le`.

The grammar looks at what tokens mean and how they are written, not at where they stand. `Moves f`
says that a change `f` of tokens keeps the former. Reading changed tokens then gives what reading
the tokens themselves gives, with the changed token where it fails: `Body.ofTokens_map`.
-/

namespace BoundSql

/-! ## More levels of nesting -/

namespace Parse

variable {α β : Type} {p p' : Parse α}

/-- The limit of nesting was hit. -/
def Overflows (x : Except ParseError α) : Prop := ∃ e, x = .error e ∧ e.isOverflow = true

/-- The second computation does what the first one does where that does not overflow. -/
def Deeper (p p' : Parse α) : Prop := ∀ c : Cursor, Overflows (p.run c) ∨ p'.run c = p.run c

theorem Deeper.refl (p : Parse α) : Deeper p p := fun _ => .inr rfl

theorem Deeper.bind {q q' : α → Parse β} (hp : Deeper p p') (hq : ∀ x, Deeper (q x) (q' x)) :
    Deeper (p >>= q) (p' >>= q') := by
  intro c
  rw [StateT.run_bind, StateT.run_bind]
  rcases hp c with ⟨e, failed, overflow⟩ | same
  · rw [failed]
    exact .inl ⟨e, rfl, overflow⟩
  · rw [same]
    cases p.run c with
    | error e => exact .inr rfl
    | ok result => exact hq result.1 result.2

/-- The grammar goes on in the same way where nothing overflows. -/
def deeper : Congruence where
  Rel := Deeper
  pure _ := .refl _
  bind := Deeper.bind
  failWith _ := .refl _
  advance := .refl _
  kind := .refl _
  nextKind := .refl _
  current _ hq c := hq c.current c
  count _ hq c := hq c c

end Parse

namespace Grammar

theorem deeper_statement {limit limit' : Nat} (h : limit ≤ limit') :
    Parse.Deeper (statement limit) (statement limit') := by
  obtain ⟨more, rfl⟩ := Nat.exists_eq_add_of_le h
  -- With no levels left, the smaller limit is hit whatever stands there.
  have exhausted : Nested.Related Parse.deeper ⟨expression limit 0, query limit 0⟩
      ⟨expression (limit + more) more, query (limit + more) more⟩ :=
    ⟨fun _ _ => .inl ⟨_, rfl, rfl⟩, fun _ => .inl ⟨_, rfl, rfl⟩⟩
  have related := related_levels limit exhausted
  exact rel_statement related

end Grammar

/-- With a larger limit of nesting, tokens are the same statement or are refused for the same reason,
unless they nest deeper than the smaller one. -/
theorem Body.ofTokens_of_le {limit limit' : Nat} (h : limit ≤ limit') (ts : List Token) :
    Parse.Overflows (Body.ofTokens limit ts) ∨ Body.ofTokens limit' ts = Body.ofTokens limit ts := by
  rw [Body.ofTokens, Body.ofTokens]
  rcases Grammar.deeper_statement h (Cursor.ofTokens ts) with ⟨e, failed, overflow⟩ | same
  · rw [failed]
    exact .inl ⟨e, rfl, overflow⟩
  · rw [same]
    exact .inr rfl

/-! ## Tokens in other places -/

/-- A change of tokens that keeps what they mean and how they are written. -/
class Moves (f : Token → Token) : Prop where
  kind : ∀ t, (f t).kind = t.kind
  lexeme : ∀ t, (f t).lexeme = t.lexeme

/-- The error at the changed token. -/
def ParseError.map (f : Token → Token) (e : ParseError) : ParseError := { e with token := f e.token }

/-- The place among the changed tokens. -/
def Cursor.map (f : Token → Token) (c : Cursor) : Cursor := ⟨f c.current, c.following.map f⟩

theorem Cursor.next_map (f : Token → Token) (c : Cursor) : (c.map f).next = c.next.map f := by
  obtain ⟨current, following⟩ := c
  cases following <;> rfl

namespace Parse

variable {α β : Type} {f : Token → Token} {p p' : Parse α}

/-- The outcome among the changed tokens. -/
def mapped (f : Token → Token) : Except ParseError (α × Cursor) → Except ParseError (α × Cursor)
  | .error e => .error (e.map f)
  | .ok (x, c) => .ok (x, c.map f)

/-- The second computation does on changed tokens what the first one does on the tokens
themselves. -/
def Placeless (f : Token → Token) (p p' : Parse α) : Prop :=
  ∀ c : Cursor, p'.run (c.map f) = mapped f (p.run c)

theorem Placeless.bind {q q' : α → Parse β} (hp : Placeless f p p')
    (hq : ∀ x, Placeless f (q x) (q' x)) : Placeless f (p >>= q) (p' >>= q') := by
  intro c
  rw [StateT.run_bind, StateT.run_bind, hp c]
  cases p.run c with
  | error e => rfl
  | ok result => exact hq result.1 result.2

/-- The grammar does not look at places. -/
def placeless (f : Token → Token) [Moves f] : Congruence where
  Rel := Placeless f
  pure _ _ := rfl
  bind := Placeless.bind
  failWith _ _ := rfl
  advance c := by
    have next := Cursor.next_map f c
    exact congrArg (fun c => Except.ok ((), c)) next
  kind c := congrArg (fun k => Except.ok (k, c.map f)) (Moves.kind c.current)
  nextKind c := by
    have next : (c.map f).next.current.kind = c.next.current.kind := by
      rw [Cursor.next_map]
      exact Moves.kind _
    exact congrArg (fun k => Except.ok (k, c.map f)) next
  current {_ q q'} same hq c := by
    have moved : q (f c.current) = q c.current := same _ _ (Moves.kind _) (Moves.lexeme _)
    change (q' (f c.current)).run (c.map f) = mapped f ((q c.current).run c)
    rw [hq (f c.current) c, moved]
  count {_ q q'} same hq c := by
    have moved : q (c.map f) = q c := same _ _ (List.length_map f)
    change (q' (c.map f)).run (c.map f) = mapped f ((q c).run c)
    rw [hq (c.map f) c, moved]

end Parse

namespace Grammar

theorem placeless_statement {f : Token → Token} [Moves f] (limit : Nat) :
    Parse.Placeless f (statement limit) (statement limit) := by
  have exhausted : Nested.Related (Parse.placeless f) ⟨expression limit 0, query limit 0⟩
      ⟨expression limit 0, query limit 0⟩ := ⟨fun _ _ => rfl, fun _ => rfl⟩
  have related := related_levels limit exhausted
  exact rel_statement related

end Grammar

variable {f : Token → Token} [Moves f]

/-- Tokens in other places are the same statement, or are refused at the same token. -/
theorem Body.ofTokens_map (limit : Nat) {ts : List Token} (h : ts ≠ []) :
    Body.ofTokens limit (ts.map f) = (Body.ofTokens limit ts).mapError (ParseError.map f) := by
  obtain ⟨t, ts, rfl⟩ := List.exists_cons_of_ne_nil h
  have read := Grammar.placeless_statement (f := f) limit (Cursor.ofTokens (t :: ts))
  have moved : Cursor.ofTokens ((t :: ts).map f) = (Cursor.ofTokens (t :: ts)).map f := rfl
  rw [Body.ofTokens, Body.ofTokens, moved, read]
  cases (Grammar.statement limit).run (Cursor.ofTokens (t :: ts)) with
  | error e => rfl
  | ok result => rfl

end BoundSql
