import BoundSql.Proofs.Grammar.Yields
import BoundSql.Proofs.Tree.Joins
import BoundSql.Proofs.Tree.Params
import Mathlib.Algebra.BigOperators.Group.Multiset.Basic

/-!
# What a grammar takes up

`Collects c p` says that `p` moves on over just those placeholders that the value it yields has,
and over no error: what the tokens hold in front of `p` is what the value holds and what the
tokens behind it hold. There is a rule for each way in which computations are put together.
-/

namespace BoundSql

open Parse

/-- Parameters, and the errors that no tree has. -/
abbrev Bag := Multiset (Except LexicalError ParamRef)

/-- The parameter without its default. -/
def ParamRef.bare (p : ParamRef) : ParamRef := { p with default := none }

/-- Parameters as the tokens hold them. -/
def Bag.ofParams (ps : List ParamRef) : Bag :=
  Multiset.ofList (ps.map fun p => Except.ok p.bare)

namespace Bag

@[simp] theorem ofParams_nil : ofParams [] = 0 := rfl

@[simp] theorem ofParams_append (ps qs : List ParamRef) :
    ofParams (ps ++ qs) = ofParams ps + ofParams qs := by
  simp [ofParams]

theorem ofParams_flatMap {α : Type} (f : α → List ParamRef) (xs : List α) :
    ofParams (xs.flatMap f) = (xs.map fun x => ofParams (f x)).sum := by
  induction xs with
  | nil => rfl
  | cons x xs ih => rw [List.flatMap_cons, ofParams_append, ih, List.map_cons, List.sum_cons]

theorem ofParams_perm {ps qs : List ParamRef} (h : ps.Perm qs) : ofParams ps = ofParams qs :=
  Multiset.coe_eq_coe.2 (h.map _)

end Bag

/-- What a token holds: a placeholder its parameter, an error itself. -/
def TokenKind.bag : TokenKind → Bag
  | param p => {.ok (.ofKey p.key)}
  | hostParam name => {.ok (.ofKey (.named name))}
  | error e => {.error e}
  | _ => 0

/-- The end of the input is the last of the tokens, and stands nowhere else. -/
def Token.Closed : List Token → Prop
  | [] => False
  | t :: ts => if t.kind = .eof then ts = [] else Closed ts

namespace Cursor

/-- What the tokens from this place on hold. -/
def bag (s : Cursor) : Bag := s.current.kind.bag + (s.following.map (·.kind.bag)).sum

/-- The tokens from this place on are closed. -/
def Closed (s : Cursor) : Prop := Token.Closed (s.current :: s.following)

theorem Closed.next {s : Cursor} (h : s.Closed) : s.next.Closed := by
  obtain ⟨current, following⟩ := s
  cases following with
  | nil => exact h
  | cons t ts =>
    unfold Closed Token.Closed at h
    split at h
    · cases h
    · exact h

/-- Moving on takes up what the current token holds. -/
theorem Closed.bag_next {s : Cursor} (h : s.Closed) : s.bag = s.current.kind.bag + s.next.bag := by
  obtain ⟨current, following⟩ := s
  cases following with
  | cons t ts =>
    rw [bag, List.map_cons, List.sum_cons]
    rfl
  | nil =>
    unfold Closed Token.Closed at h
    split at h
    · rename_i eof
      change current.kind.bag + 0 = current.kind.bag + (current.kind.bag + 0)
      have nothing : current.kind.bag = 0 := by rw [show current.kind = _ from eof]; rfl
      simp [nothing]
    · exact h.elim

/-- At the end of the input nothing is held. -/
theorem Closed.bag_eof {s : Cursor} (h : s.Closed) (eof : s.current.kind = .eof) : s.bag = 0 := by
  unfold Closed Token.Closed at h
  rw [if_pos eof] at h
  rw [bag, eof, h]
  rfl

/-- The current token is of this kind. -/
def Here (k : TokenKind) (s : Cursor) : Prop := s.current.kind = k

/-- The current token holds nothing. -/
def Plain (s : Cursor) : Prop := s.current.kind.bag = 0

end Cursor

open Cursor

/-! ## Contents -/

/-- What values of a type hold, and how well they are formed. -/
structure Content (α : Type) where
  bag : α → Bag
  sound : α → Prop

namespace Content

variable {α β : Type}

/-- Values that hold nothing. -/
def nothing : Content α := ⟨fun _ => 0, fun _ => True⟩

/-- Expressions hold their parameters. -/
def expr : Content Expr := ⟨fun e => .ofParams e.params, Expr.Ordered⟩

/-- Queries hold their parameters. -/
def query : Content Query := ⟨fun q => .ofParams q.params, Query.Ordered⟩

/-- Values in a row. -/
def list (c : Content α) : Content (List α) :=
  ⟨fun xs => (xs.map c.bag).sum, fun xs => ∀ x ∈ xs, c.sound x⟩

/-- Values that hold what some part of them does. -/
def on (c : Content β) (f : α → β) : Content α := ⟨fun x => c.bag (f x), fun x => c.sound (f x)⟩

/-- A value that may be missing. -/
def option (c : Content α) : Content (Option α) := c.list.on Option.toList

/-- Pairs hold what both sides do. -/
def both (c : Content α) (d : Content β) : Content (α × β) :=
  ⟨fun x => c.bag x.1 + d.bag x.2, fun x => c.sound x.1 ∧ d.sound x.2⟩

end Content

/-! ## Rules -/

namespace Parse

variable {α β σ : Type} {G : Cursor → Prop} {before : Bag} {c : Content β} {d : Content α}
  {p : Parse α} {q : α → Parse β} {k : TokenKind}

/-- Where `G` holds and `before` has been taken up already, the value that `p` yields holds that and
what `p` takes up itself. -/
def CollectsAt (G : Cursor → Prop) (before : Bag) (c : Content α) (p : Parse α) : Prop :=
  ∀ s x s', G s → s.Closed → p.run s = .ok (x, s') →
    before + s.bag = c.bag x + s'.bag ∧ c.sound x ∧ s'.Closed

/-- Everywhere, the value that `p` yields holds `before` and what `p` takes up. -/
abbrev CollectsOn (before : Bag) (c : Content α) (p : Parse α) : Prop :=
  CollectsAt (fun _ => True) before c p

/-- The value that `p` yields holds just what `p` takes up. -/
abbrev Collects (c : Content α) (p : Parse α) : Prop := CollectsOn 0 c p

/-- The computation takes up nothing. -/
abbrev Skips (p : Parse α) : Prop := Collects .nothing p

theorem CollectsAt.mono {G' : Cursor → Prop} (h : CollectsAt G' before d p) (hG : ∀ s, G s → G' s) :
    CollectsAt G before d p :=
  fun s x s' here closed run => h s x s' (hG s here) closed run

theorem CollectsAt.of (h : CollectsOn before d p) : CollectsAt G before d p :=
  h.mono fun _ _ => trivial

theorem collects_pure {x : α} (hbag : before = d.bag x) (hsound : d.sound x) :
    CollectsAt G before d (pure x) := by
  intro s y s' _ closed run
  cases run
  exact ⟨by rw [hbag], hsound, closed⟩

theorem skips_pure (x : α) : CollectsAt G 0 .nothing (pure x) := collects_pure rfl trivial

theorem collects_failWith (cause : ParseCause) :
    CollectsAt G before d (failWith cause : Parse α) := by
  intro s x s' _ _ run
  cases run

theorem collects_fail (what : String) : CollectsAt G before d (fail what : Parse α) :=
  collects_failWith _

/-- What `p` yields is there when the second computation begins. -/
theorem CollectsAt.seq (hp : CollectsAt G before d p)
    (hq : ∀ x, d.sound x → CollectsOn (d.bag x) c (q x)) :
    CollectsAt G before c (p >>= q) := by
  intro s y s' here closed run
  obtain ⟨x, s₁, first, rest⟩ := run_bind_eq_ok run
  obtain ⟨held, sound, closed'⟩ := hp s x s₁ here closed first
  obtain ⟨held', behind⟩ := hq x sound s₁ y s' trivial closed' rest
  exact ⟨held.trans held', behind⟩

/-- What has been taken up before stays. -/
theorem CollectsAt.frame (hp : CollectsAt G 0 d p) (before : Bag) :
    CollectsAt G before { d with bag := fun x => before + d.bag x } p := by
  intro s x s' here closed run
  obtain ⟨held, rest⟩ := hp s x s' here closed run
  refine ⟨?_, rest⟩
  rw [add_assoc, ← held, zero_add]

/-- Behind `p`, what it yields has been taken up besides. -/
theorem CollectsAt.bind (hp : CollectsAt G 0 d p)
    (hq : ∀ x, d.sound x → CollectsOn (before + d.bag x) c (q x)) :
    CollectsAt G before c (p >>= q) :=
  (hp.frame before).seq hq

/-- Behind a computation that takes up nothing. -/
theorem CollectsAt.skip (hp : CollectsAt G 0 .nothing p) (hq : ∀ x, CollectsOn before c (q x)) :
    CollectsAt G before c (p >>= q) :=
  hp.bind fun x _ => by
    rw [show before + Content.nothing.bag x = before from add_zero _]
    exact hq x

/-- Contents that are the same for every value can stand for each other. -/
theorem CollectsAt.as {d' : Content α} (hp : CollectsAt G before d p)
    (hbag : ∀ x, d.bag x = d'.bag x) (hsound : ∀ x, d.sound x → d'.sound x) :
    CollectsAt G before d' p := by
  intro s x s' here closed run
  obtain ⟨held, sound, closed'⟩ := hp s x s' here closed run
  exact ⟨hbag x ▸ held, hsound x sound, closed'⟩

theorem CollectsAt.mapTo {f : α → β} (hp : CollectsAt G before d p)
    (hbag : ∀ x, d.bag x = c.bag (f x)) (hsound : ∀ x, d.sound x → c.sound (f x)) :
    CollectsAt G before c (f <$> p) := by
  rw [← bind_pure_comp]
  exact hp.seq fun x hx => collects_pure (hbag x) (hsound x hx)

theorem CollectsAt.map {f : α → β} (hp : CollectsAt G before (c.on f) p) :
    CollectsAt G before c (f <$> p) :=
  hp.mapTo (fun _ => rfl) fun _ hx => hx

theorem CollectsAt.some (hp : CollectsAt G before d p) :
    CollectsAt G before d.option (some <$> p) :=
  hp.mapTo (fun _ => (add_zero _).symm) fun _ hx y hy => by rwa [List.mem_singleton.1 hy]

/-- A branch on what stands here. -/
theorem collects_kind {q : TokenKind → Parse β} (h : ∀ k, CollectsAt (Here k) before c (q k)) :
    CollectsAt G before c (kind >>= q) :=
  fun s x s' _ closed run => h s.current.kind s x s' rfl closed run

theorem collects_current {q : Token → Parse β}
    (h : ∀ t, CollectsAt (Here t.kind) before c (q t)) : CollectsAt G before c (current >>= q) :=
  fun s x s' _ closed run => h s.current s x s' rfl closed run

/-- A branch on what stands behind the current token. -/
theorem collects_nextKind {q : TokenKind → Parse β}
    (h : ∀ k, CollectsAt (fun s => G s ∧ Here k s.next) before c (q k)) :
    CollectsAt G before c (nextKind >>= q) :=
  fun s x s' here closed run => h s.next.current.kind s x s' ⟨here, rfl⟩ closed run

theorem collects_get {q : Cursor → Parse β} (h : ∀ s, CollectsAt G before c (q s)) :
    CollectsAt G before c (get >>= q) :=
  fun s x s' here closed run => h s s x s' here closed run

/-- Moving on over a token takes up what it holds. -/
theorem collects_advance {q : Unit → Parse β} (h : CollectsOn (before + k.bag) c (q ())) :
    CollectsAt (Here k) before c (advance >>= q) := by
  intro s x s' here closed run
  obtain ⟨held, sound, closed'⟩ := h s.next x s' trivial closed.next run
  refine ⟨?_, sound, closed'⟩
  rw [closed.bag_next, ← held, add_assoc, here]

/-- Moving on over a token that holds nothing. -/
theorem collects_over {H : Cursor → Prop} {q : Unit → Parse β} (plain : ∀ s, G s → s.Plain)
    (behind : ∀ s, G s → H s.next) (h : CollectsAt H before c (q ())) :
    CollectsAt G before c (advance >>= q) := by
  intro s x s' here closed run
  obtain ⟨held, sound, closed'⟩ := h s.next x s' (behind s here) closed.next run
  refine ⟨?_, sound, closed'⟩
  rw [closed.bag_next, plain s here, zero_add, held]

theorem collects_pass {q : Unit → Parse β} (plain : k.bag = 0) (h : CollectsOn before c (q ())) :
    CollectsAt (Here k) before c (advance >>= q) :=
  collects_advance (by rw [plain, add_zero]; exact h)

theorem skips_advance (plain : k.bag = 0) : CollectsAt (Here k) 0 .nothing advance := by
  intro s x s' here closed run
  cases run
  refine ⟨?_, trivial, closed.next⟩
  rw [closed.bag_next, here, plain, zero_add]
  rfl

/-- A branch on whether a certain token stands here. -/
theorem collects_isAt {q : Bool → Parse β} (yes : CollectsAt (Here k) before c (q true))
    (no : CollectsOn before c (q false)) : CollectsAt G before c (isAt k >>= q) := by
  intro s x s' _ closed run
  change (q (s.current.kind == k)).run s = _ at run
  by_cases same : s.current.kind = k
  · rw [same, beq_self_eq_true] at run
    exact yes s x s' same closed run
  · rw [beq_eq_false_iff_ne.2 same] at run
    exact no s x s' trivial closed run

theorem skips_isAt (k : TokenKind) : Skips (isAt k) := collects_kind fun _ => skips_pure _

theorem skips_accept (plain : k.bag = 0) : Skips (accept k) :=
  collects_isAt (collects_pass plain (skips_pure true)) (skips_pure false)

theorem skips_acceptWord (k : Keyword) : Skips (acceptWord k) := skips_accept rfl

theorem skips_acceptSign (p : Punct) : Skips (acceptSign p) := skips_accept rfl

theorem skips_word (k : Keyword) : Skips (word k) := by
  refine (skips_acceptWord k).skip fun here => ?_
  split
  · exact skips_pure ()
  · exact collects_fail _

theorem skips_sign (p : Punct) : Skips (sign p) := by
  refine (skips_acceptSign p).skip fun here => ?_
  split
  · exact skips_pure ()
  · exact collects_fail _

theorem collects_afterWord (k : Keyword) (hp : Collects d p) :
    Collects d.option (afterWord k p) := by
  refine (skips_acceptWord k).skip fun here => ?_
  split
  · exact hp.some
  · exact collects_pure rfl (by simp [Content.option, Content.on, Content.list])

theorem skips_afterWord (k : Keyword) (hp : Skips p) : Skips (afterWord k p) :=
  (collects_afterWord k hp).as (fun o => by cases o <;> rfl) fun _ _ => trivial

theorem skips_name (what : String) : Skips (name what) := by
  refine collects_current fun t => ?_
  split
  · rename_i here
    exact here ▸ collects_pass rfl (skips_pure _)
  · rename_i here
    split
    · exact collects_fail what
    · exact here ▸ collects_pass rfl (skips_pure _)
  · exact collects_fail what

theorem skips_memberName : Skips memberName := by
  refine collects_current fun t => ?_
  split
  · rename_i here
    exact here ▸ collects_pass rfl (skips_pure _)
  · exact .of (skips_name _)

section Repeat

variable {e : Content σ} {step : σ → Parse (Option σ)}

/-- A step turns a state into another one that holds what the step takes up besides, or stops and
takes up nothing. -/
abbrev CollectsStep (e : Content σ) (step : σ → Parse (Option σ)) : Prop :=
  ∀ s, e.sound s → CollectsOn (e.bag s) (e.on (Option.getD · s)) (step s)

theorem collects_repeatFrom (hstep : CollectsStep e step) (fuel : Nat) {s : σ} (hs : e.sound s) :
    CollectsOn (e.bag s) e (repeatFrom step fuel s) := by
  induction fuel generalizing s with
  | zero => exact collects_pure rfl hs
  | succ fuel ih =>
    intro c x c' here closed run
    obtain ⟨more, c₁, first, rest⟩ := run_bind_eq_ok run
    obtain ⟨held, sound, closed'⟩ := hstep s hs c more c₁ here closed first
    cases more with
    | none =>
      cases rest
      exact ⟨held, sound, closed'⟩
    | some s₁ =>
      obtain ⟨held', behind⟩ := ih sound c₁ x c' trivial closed' rest
      exact ⟨held.trans held', behind⟩

/-- What the steps take up, together with what was there, is held when there is nothing left to
do. -/
theorem collects_repeatStep (hstep : CollectsStep e step) {s : σ} (hs : e.sound s) :
    CollectsOn (e.bag s) e (repeatStep step s) :=
  collects_get fun _ => collects_repeatFrom hstep _ hs

end Repeat

theorem collects_commaSepFrom (hp : Collects d p) (fuel : Nat) :
    Collects d.list (commaSepFrom p fuel) := by
  induction fuel with
  | zero =>
    refine hp.bind fun x hx => collects_pure (by simp [Content.list]) fun y hy => ?_
    rwa [List.mem_singleton.1 hy]
  | succ fuel ih =>
    refine hp.bind fun x hx => (skips_acceptSign .comma).skip fun more => ?_
    split
    · refine ih.bind fun xs hxs => collects_pure ?_ (List.forall_mem_cons.2 ⟨hx, hxs⟩)
      simp [Content.list]
    · refine collects_pure (by simp [Content.list]) fun y hy => ?_
      rwa [List.mem_singleton.1 hy]

theorem collects_commaSep (hp : Collects d p) : Collects d.list (commaSep p) :=
  collects_get fun _ => collects_commaSepFrom hp _

theorem collects_parenthesized (hp : CollectsOn before d p) :
    CollectsOn before d (parenthesized p) :=
  (skips_sign .leftParen).skip fun _ => hp.seq fun _ hx =>
    (skips_sign .rightParen).skip fun _ => collects_pure rfl hx

theorem skips_commaSep (hp : Skips p) : Skips (commaSep p) :=
  (collects_commaSep hp).as (fun xs => by simp [Content.list, Content.nothing]) fun _ _ => trivial

theorem skips_qualifiedName (what : String) : Skips (qualifiedName what) := by
  refine (skips_name what).skip fun first => ?_
  refine (collects_repeatStep (e := .nothing) (fun parts _ => ?_) trivial).skip fun parts =>
    skips_pure _
  refine (skips_acceptSign .dot).skip fun dot => ?_
  split
  · exact skips_memberName.skip fun part => collects_pure rfl trivial
  · exact collects_pure rfl trivial

theorem skips_columnNames : Skips columnNames := skips_commaSep (skips_name _)

end Parse

end BoundSql
