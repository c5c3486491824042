import BoundSql.Proofs.Grammar.Collects
import BoundSql.Proofs.Grammar.Reads
import BoundSql.Proofs.Tree.Sequence

/-!
# Trees that say what their tokens say

What the words from some place on are worth is given in an ordered monoid. `Follows c p` says that
what `p` moves over is worth no more than the value that `p` yields, so that nothing of the text
gets lost or changes its place; where the order of the monoid is equality, nothing is added either.
There is a rule for each way in which computations are put together.
-/

namespace BoundSql

open Parse Cursor

variable {N : Type}

/-- What the words from this place on are worth. -/
def Cursor.marks (m : List Word → N) (s : Cursor) : WithTop N := ↑(m s.words)

/-- A word of this kind is worth nothing, whatever stands behind it. -/
def Idle [LE N] (m : List Word → N) (k : TokenKind) : Prop :=
  ∀ w ws, w.kind = k → m (w :: ws) ≤ m ws

/-- In front of the end of the input there always is a further word. -/
theorem Cursor.Closed.words_eq {s : Cursor} (h : s.Closed) {k : TokenKind} (here : Here k s)
    (more : k ≠ .eof) : s.words = s.current.toWord :: s.next.words := by
  obtain ⟨current, following⟩ := s
  cases following with
  | cons t ts => rfl
  | nil =>
    unfold Closed Token.Closed at h
    split at h
    · rename_i eof
      exact absurd (here.symm.trans eof) more
    · exact h.elim

/-- Moving on over a word that is worth nothing. -/
theorem Cursor.marks_le_next [Preorder N] {m : List Word → N} {k : TokenKind} (idle : Idle m k)
    {s : Cursor} (here : Here k s) : s.marks m ≤ s.next.marks m := by
  obtain ⟨current, following⟩ := s
  cases following with
  | nil => exact le_rfl
  | cons t ts => exact WithTop.coe_le_coe.2 (idle current.toWord _ here)

namespace Parse

variable {α β σ : Type} [AddMonoid N] [Preorder N] {m : List Word → N} {G : Cursor → Prop}
  {before : WithTop N} {c : β → WithTop N} {d : α → WithTop N} {p : Parse α} {q : α → Parse β}
  {k : TokenKind}

/-- Where `G` holds, `before` and what `p` moves over are together worth no more than the value that
`p` yields. -/
def FollowsAt (m : List Word → N) (G : Cursor → Prop) (before : WithTop N) (d : α → WithTop N)
    (p : Parse α) : Prop :=
  ∀ s x s', G s → s.Closed → p.run s = .ok (x, s') →
    before + s.marks m ≤ d x + s'.marks m ∧ s'.Closed

/-- Everywhere, `before` and what `p` moves over are together worth no more than what it yields. -/
abbrev FollowsOn (m : List Word → N) (before : WithTop N) (d : α → WithTop N) (p : Parse α) : Prop :=
  FollowsAt m (fun _ => True) before d p

/-- What `p` moves over is worth no more than what it yields. -/
abbrev Follows (m : List Word → N) (d : α → WithTop N) (p : Parse α) : Prop := FollowsOn m 0 d p

/-- What `p` moves over is worth nothing. -/
abbrev Idles (m : List Word → N) (p : Parse α) : Prop := Follows m (fun _ => 0) p

theorem FollowsAt.mono {G' : Cursor → Prop} (h : FollowsAt m G' before d p)
    (hG : ∀ s, G s → G' s) : FollowsAt m G before d p :=
  fun s x s' here closed run => h s x s' (hG s here) closed run

theorem FollowsAt.of (h : FollowsOn m before d p) : FollowsAt m G before d p :=
  h.mono fun _ _ => trivial

theorem follows_failWith (cause : ParseCause) : FollowsAt m G before d (failWith cause : Parse α) := by
  intro s x s' _ _ run
  cases run

theorem follows_fail (what : String) : FollowsAt m G before d (fail what : Parse α) :=
  follows_failWith _

theorem follows_fail_bind {q : α → Parse β} (what : String) :
    FollowsAt m G before c ((fail what : Parse α) >>= q) := by
  intro s x s' _ _ run
  obtain ⟨_, _, first, -⟩ := run_bind_eq_ok run
  cases first

/-- What `p` yields is there when the second computation begins. -/
theorem FollowsAt.seq (hp : FollowsAt m G before d p) (hq : ∀ x, FollowsOn m (d x) c (q x)) :
    FollowsAt m G before c (p >>= q) := by
  intro s y s' here closed run
  obtain ⟨x, s₁, first, rest⟩ := run_bind_eq_ok run
  obtain ⟨held, closed'⟩ := hp s x s₁ here closed first
  obtain ⟨held', closed''⟩ := hq x s₁ y s' trivial closed' rest
  exact ⟨held.trans held', closed''⟩

/-- A branch on what stands here. -/
theorem follows_kind {q : TokenKind → Parse β} (h : ∀ k, FollowsAt m (Here k) before c (q k)) :
    FollowsAt m G before c (kind >>= q) :=
  fun s x s' _ closed run => h s.current.kind s x s' rfl closed run

/-- A branch on what stands behind the current token. -/
theorem follows_nextKind {q : TokenKind → Parse β}
    (h : ∀ k, FollowsAt m (fun s => G s ∧ Here k s.next) before c (q k)) :
    FollowsAt m G before c (nextKind >>= q) :=
  fun s x s' here closed run => h s.next.current.kind s x s' ⟨here, rfl⟩ closed run

theorem follows_get {q : Cursor → Parse β} (h : ∀ s, FollowsAt m G before c (q s)) :
    FollowsAt m G before c (get >>= q) :=
  fun s x s' here closed run => h s s x s' here closed run

/-- A branch on whether a certain token stands here. -/
theorem follows_isAt {q : Bool → Parse β} (yes : FollowsAt m (fun s => G s ∧ Here k s) before c (q true))
    (no : FollowsAt m G before c (q false)) : FollowsAt m G before c (isAt k >>= q) := by
  intro s x s' here closed run
  change (q (s.current.kind == k)).run s = _ at run
  by_cases same : s.current.kind = k
  · rw [same, beq_self_eq_true] at run
    exact yes s x s' ⟨here, same⟩ closed run
  · rw [beq_eq_false_iff_ne.2 same] at run
    exact no s x s' here closed run

/-- A branch on whether a certain token stands here, which is moved over then. -/
theorem follows_accept {q : Bool → Parse β}
    (yes : FollowsAt m (fun s => G s ∧ Here k s) before c (advance >>= fun _ => q true))
    (no : FollowsAt m G before c (q false)) : FollowsAt m G before c (accept k >>= q) := by
  rw [accept, bind_assoc]
  refine follows_isAt ?_ ?_
  · simpa using yes
  · simpa using no

section

variable [AddRightMono N]

theorem follows_pure {x : α} (h : before ≤ d x) : FollowsAt m G before d (pure x) := by
  intro s y s' _ closed run
  cases run
  exact ⟨add_le_add_left h _, closed⟩

theorem idles_pure (x : α) : FollowsAt m G 0 (fun _ => 0) (pure x) := follows_pure le_rfl

/-- What is yielded can be worth more. -/
theorem FollowsAt.as {d' : α → WithTop N} (hp : FollowsAt m G before d p) (h : ∀ x, d x ≤ d' x) :
    FollowsAt m G before d' p := by
  intro s x s' here closed run
  obtain ⟨held, closed'⟩ := hp s x s' here closed run
  exact ⟨held.trans (add_le_add_left (h x) _), closed'⟩

theorem FollowsAt.mapTo {f : α → β} (hp : FollowsAt m G before d p) (h : ∀ x, d x ≤ c (f x)) :
    FollowsAt m G before c (f <$> p) := by
  rw [← bind_pure_comp]
  exact hp.seq fun x => follows_pure (h x)

theorem FollowsAt.map {f : α → β} (hp : FollowsAt m G before (fun x => c (f x)) p) :
    FollowsAt m G before c (f <$> p) :=
  hp.mapTo fun _ => le_rfl

section Repeat

variable {e : σ → WithTop N} {step : σ → Parse (Option σ)} {I : σ → Prop}

/-- A step turns a state into another one that is worth besides what the step moves over, or stops
and moves over nothing of worth. -/
abbrev FollowsStep (m : List Word → N) (e : σ → WithTop N) (step : σ → Parse (Option σ)) (s : σ) :
    Prop :=
  FollowsOn m (e s) (fun more => e (more.getD s)) (step s)

theorem follows_repeatFrom (hstep : ∀ s, I s → FollowsStep m e step s)
    (kept : ∀ s, I s → Yields (fun o => ∀ s' ∈ o, I s') (step s)) (fuel : Nat) {s : σ} (hs : I s) :
    FollowsOn m (e s) e (repeatFrom step fuel s) := by
  induction fuel generalizing s with
  | zero => exact follows_pure le_rfl
  | succ fuel ih =>
    intro c x c' here closed run
    obtain ⟨more, c₁, first, rest⟩ := run_bind_eq_ok run
    obtain ⟨held, closed'⟩ := hstep s hs c more c₁ here closed first
    have behind := (kept s hs).of_run first
    cases more with
    | none =>
      cases rest
      exact ⟨held, closed'⟩
    | some s₁ =>
      obtain ⟨held', closed''⟩ := ih (behind s₁ rfl) c₁ x c' trivial closed' rest
      exact ⟨held.trans held', closed''⟩

/-- What the steps move over is added to what was there, as long as they keep what they need. -/
theorem follows_repeatKept (hstep : ∀ s, I s → FollowsStep m e step s)
    (kept : ∀ s, I s → Yields (fun o => ∀ s' ∈ o, I s') (step s)) {s : σ} (hs : I s) :
    FollowsOn m (e s) e (repeatStep step s) :=
  follows_get fun _ => follows_repeatFrom hstep kept _ hs

/-- What the steps move over is added to what was there. -/
theorem follows_repeatStep (hstep : ∀ s, FollowsStep m e step s) (s : σ) :
    FollowsOn m (e s) e (repeatStep step s) :=
  follows_repeatKept (I := fun _ => True) (fun s _ => hstep s)
    (fun _ _ => yields_of_run fun _ _ _ _ _ _ => trivial) trivial

end Repeat

end

section

variable [AddLeftMono N]

/-- What has been moved over before stays. -/
theorem FollowsAt.frame (hp : FollowsAt m G 0 d p) (before : WithTop N) :
    FollowsAt m G before (fun x => before + d x) p := by
  intro s x s' here closed run
  obtain ⟨held, closed'⟩ := hp s x s' here closed run
  refine ⟨?_, closed'⟩
  rw [zero_add] at held
  rw [add_assoc]
  exact add_le_add_right held before

/-- Behind `p`, what it yields has been moved over besides. -/
theorem FollowsAt.bind {a : WithTop N} (hp : FollowsAt m G 0 d p)
    (hq : ∀ x, FollowsOn m (a + d x) c (q x)) : FollowsAt m G a c (p >>= q) :=
  (hp.frame a).seq hq

/-- Behind a computation that moves over nothing of worth. -/
theorem FollowsAt.skip (hp : FollowsAt m G 0 (fun _ => 0) p) (hq : ∀ x, FollowsOn m before c (q x)) :
    FollowsAt m G before c (p >>= q) :=
  hp.bind fun x => by
    rw [add_zero]
    exact hq x

/-- Moving on over a word that is worth nothing. -/
theorem follows_over {H : Cursor → Prop} {q : Unit → Parse β} (idle : Idle m k)
    (here : ∀ s, G s → Here k s) (behind : ∀ s, G s → H s.next) (h : FollowsAt m H before c (q ())) :
    FollowsAt m G before c (advance >>= q) := by
  intro s x s' hs closed run
  obtain ⟨held, closed'⟩ := h s.next x s' (behind s hs) closed.next run
  exact ⟨(add_le_add_right (marks_le_next idle (here s hs)) before).trans held, closed'⟩

theorem follows_pass {q : Unit → Parse β} (idle : Idle m k) (h : FollowsOn m before c (q ())) :
    FollowsAt m (Here k) before c (advance >>= q) :=
  follows_over idle (fun _ here => here) (fun _ _ => trivial) h

theorem idles_advance [AddRightMono N] (idle : Idle m k) :
    FollowsAt m (Here k) 0 (fun _ => 0) advance := by
  have moved := follows_pass (q := pure) idle (idles_pure ())
  rwa [bind_pure] at moved

/-- Moving on over a word of known worth. -/
theorem follows_worth {q : Unit → Parse β} {n : WithTop N} (more : k ≠ .eof)
    (worth : ∀ w ws, w.kind = k → ↑(m (w :: ws)) ≤ n + ↑(m ws))
    (h : FollowsOn m (before + n) c (q ())) : FollowsAt m (Here k) before c (advance >>= q) := by
  intro s x s' here closed run
  obtain ⟨held, closed'⟩ := h s.next x s' trivial closed.next run
  refine ⟨le_trans ?_ held, closed'⟩
  rw [add_assoc, marks, closed.words_eq here more]
  exact add_le_add_right (worth s.current.toWord _ here) before

/-- A branch on whether a token stands here that is worth nothing. -/
theorem follows_ifAccept {q : Bool → Parse β} (idle : Idle m k)
    (h : ∀ b, FollowsOn m before c (q b)) : FollowsAt m G before c (accept k >>= q) :=
  follows_accept (follows_over idle (fun _ here => here.2) (fun _ _ => trivial) (h true))
    (.of (h false))

omit [AddLeftMono N] in
/-- Behind a keyword that must stand here. -/
theorem follows_wordAt {w : Keyword} {q : Unit → Parse β}
    (h : FollowsAt m (Here (.keyword w)) before c (advance >>= q)) :
    FollowsAt m G before c (word w >>= q) := by
  rw [word, bind_assoc]
  refine follows_accept ?_ (follows_fail_bind _)
  exact h.mono fun _ here => here.2

theorem follows_word {w : Keyword} {q : Unit → Parse β} (idle : Idle m (.keyword w))
    (h : FollowsOn m before c (q ())) : FollowsAt m G before c (word w >>= q) :=
  follows_wordAt (follows_pass idle h)

theorem follows_sign {w : Punct} {q : Unit → Parse β} (idle : Idle m (.punct w))
    (h : FollowsOn m before c (q ())) : FollowsAt m G before c (sign w >>= q) := by
  rw [sign, bind_assoc]
  refine follows_ifAccept idle fun here => ?_
  cases here
  · exact follows_fail_bind _
  · exact h

theorem follows_parenthesized (idle : ∀ w, w = .leftParen ∨ w = .rightParen → Idle m (.punct w))
    [AddRightMono N] (hp : FollowsOn m before d p) :
    FollowsAt m G before d (parenthesized p) :=
  follows_sign (idle _ (.inl rfl)) (hp.seq fun _ =>
    follows_sign (idle _ (.inr rfl)) (follows_pure le_rfl))

theorem follows_afterWord [AddRightMono N] {w : Keyword} (idle : Idle m (.keyword w))
    {d : Option α → WithTop N} (none : before ≤ d none)
    (hp : FollowsOn m before (fun x => d (some x)) p) : FollowsAt m G before d (afterWord w p) := by
  rw [afterWord]
  refine follows_ifAccept idle fun here => ?_
  cases here
  · exact follows_pure none
  · exact hp.map

section Commas

variable [AddRightMono N] (comma : Idle m (.punct .comma))

include comma

theorem follows_commaSepFrom (hp : Follows m d p) (fuel : Nat) :
    Follows m (fun xs => (xs.map d).sum) (commaSepFrom p fuel) := by
  induction fuel with
  | zero => exact hp.seq fun x => follows_pure (by simp)
  | succ fuel ih =>
    refine hp.bind fun x => follows_ifAccept comma fun more => ?_
    split
    · exact ih.bind fun xs => follows_pure (by simp)
    · exact follows_pure (by simp)

theorem follows_commaSep (hp : Follows m d p) :
    Follows m (fun xs => (xs.map d).sum) (commaSep p) :=
  follows_get fun _ => follows_commaSepFrom comma hp _

end Commas

end

end Parse

end BoundSql
