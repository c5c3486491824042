import BoundSql.Token.Block

/-!
# Bodies of procedural blocks

A body is well nested if each block, loop, branch and CASE in it is closed by an END of its own.
Inside a block no semicolon of such a body ends the statement, and behind the body the nesting is as
deep as before it, but for one level more for each `END CASE` and `END LOOP`: the keyword behind END
is taken for the beginning of another block. `BlockState.level_after_body` says so.
-/

namespace BoundSql

namespace TokenKind

/-- A token that has no part in the nesting of blocks. -/
def IsPlain (k : TokenKind) : Prop :=
  k ∉ [.keyword .BEGIN, .keyword .CASE, .keyword .LOOP, .keyword .IF, .keyword .END, .eof] ∧
    ∀ e, k ≠ .error e

/-- The tokens of a body in which all blocks are closed. -/
inductive WellNested : List TokenKind → Prop
  | nil : WellNested []
  | plain {k ks} (token : k.IsPlain) (rest : WellNested ks) : WellNested (k :: ks)
  | block {body ks} (inside : WellNested body) (rest : WellNested ks) :
    WellNested (.keyword .BEGIN :: body ++ .keyword .END :: .punct .semicolon :: ks)
  | caseExpr {body k ks} (inside : WellNested body) (behind : k.IsPlain) (rest : WellNested ks) :
    WellNested (.keyword .CASE :: body ++ .keyword .END :: k :: ks)
  | caseBlock {body ks} (inside : WellNested body) (rest : WellNested ks) :
    WellNested (.keyword .CASE :: body ++ .keyword .END :: .keyword .CASE :: .punct .semicolon :: ks)
  | loop {body ks} (inside : WellNested body) (rest : WellNested ks) :
    WellNested (.keyword .LOOP :: body ++ .keyword .END :: .keyword .LOOP :: .punct .semicolon :: ks)
  | branch {body ks} (inside : WellNested body) (rest : WellNested ks) :
    WellNested (.keyword .IF :: body ++ .keyword .END :: .keyword .IF :: .punct .semicolon :: ks)

/-- How often CASE or LOOP stands right behind END. -/
def reopenings : List TokenKind → Nat
  | .keyword .END :: k :: ks =>
    (if k = .keyword .CASE ∨ k = .keyword .LOOP then 1 else 0) + reopenings (k :: ks)
  | _ :: ks => reopenings ks
  | [] => 0

theorem reopenings_cons {k : TokenKind} (h : k ≠ .keyword .END) (ks : List TokenKind) :
    reopenings (k :: ks) = reopenings ks := by
  rw [reopenings]
  intro k' ks' hk
  exact absurd hk h

/-- END does not reopen what stands in front of it. -/
theorem reopenings_append_end (ks rest : List TokenKind) :
    reopenings (ks ++ .keyword .END :: rest) = reopenings ks + reopenings (.keyword .END :: rest) := by
  fun_induction reopenings ks with
  | case1 k ks ih =>
    rw [List.cons_append, List.cons_append, reopenings, Nat.add_assoc, ← ih]
    rfl
  | case2 k ks single ih =>
    by_cases hk : k = .keyword .END
    · subst hk
      cases ks with
      | nil => simp [reopenings]
      | cons k' ks => exact absurd rfl (single k' ks rfl)
    · rw [List.cons_append, reopenings_cons hk, ih]
  | case3 => simp

end TokenKind

namespace BlockState

open TokenKind

/-- What a token of this kind does to the nesting, and what it is understood as. -/
def pass (d : Dialect) (s : BlockState) (k : TokenKind) : BlockState × TokenKind :=
  let (s', k') := (s.settle k).enter d k
  (s'.finish k', k')

/-- The state behind some tokens. -/
def after (d : Dialect) (s : BlockState) (ts : List Token) : BlockState :=
  ts.foldl (fun s t => (s.step d t).1) s

/-- Tokens of these kinds lead from one state to another, and none of them ends the statement. -/
def Passes (d : Dialect) : BlockState → List TokenKind → BlockState → Prop
  | s, [], s' => s = s'
  | s, k :: ks, s' => (s.pass d k).2 ≠ .punct .semicolon ∧ Passes d (s.pass d k).1 ks s'

/-- In the middle of a statement, `level` blocks being open. -/
def within (level : Nat) : BlockState :=
  { level, awaitsBegin := false, pendingEnd := false, atStart := false, head := .none }

/-- Behind an END, `level` blocks being open in front of it. -/
def closing (level : Nat) : BlockState := { within level with pendingEnd := true }

variable {d : Dialect} {s s' s'' : BlockState} {k : TokenKind} {ks ls : List TokenKind} {n : Nat}

theorem Passes.append (h : Passes d s ks s') (h' : Passes d s' ls s'') :
    Passes d s (ks ++ ls) s'' := by
  induction ks generalizing s with
  | nil =>
    have same : s = s' := h
    rwa [same]
  | cons k ks ih =>
    obtain ⟨inner, rest⟩ := h
    exact ⟨inner, ih rest⟩

theorem Passes.cons (h : s.pass d k = (s', k)) (hk : k ≠ .punct .semicolon)
    (rest : Passes d s' ks s'') : Passes d s (k :: ks) s'' := by
  rw [Passes, h]
  exact ⟨hk, rest⟩

theorem step_eq (d : Dialect) (s : BlockState) (t : Token) :
    s.step d t = ((s.pass d t.kind).1, { t with kind := (s.pass d t.kind).2 }) := rfl

theorem after_append (ts us : List Token) : s.after d (ts ++ us) = (s.after d ts).after d us :=
  List.foldl_append

theorem Passes.after {ts : List Token} (h : Passes d s (ts.map (·.kind)) s') : s.after d ts = s' := by
  induction ts generalizing s with
  | nil => exact h
  | cons t ts ih => exact ih h.2

/-- Tokens on the way from one state to another end no statement. -/
theorem Passes.track {ts : List Token} (h : Passes d s (ts.map (·.kind)) s') :
    ∀ t ∈ s.track d ts, t.1.kind ≠ .punct .semicolon := by
  induction ts generalizing s with
  | nil =>
    intro t ht
    cases ht
  | cons t ts ih =>
    intro u hu
    rw [BlockState.track, step_eq] at hu
    rcases List.mem_cons.1 hu with rfl | hu
    · exact h.1
    · exact ih h.2 u hu

/-! ## One token -/

theorem level_finish (s : BlockState) (k : TokenKind) : (s.finish k).level = s.level := by
  unfold finish
  split <;> rfl

/-- A plain token opens and closes nothing. A semicolon among them ends no statement in a block. -/
theorem enter_plain (hk : k.IsPlain) (n : Nat) : (within n).enter d k =
    (within n, if k = .punct .semicolon ∧ 0 < n then .punct .blockSemicolon else k) := by
  obtain ⟨hwords, -⟩ := hk
  by_cases positive : 0 < n
  · unfold enter
    split
    all_goals simp_all [within]
  · unfold enter
    split
    all_goals simp_all [within]

theorem pass_plain (hk : k.IsPlain) (hn : 1 ≤ n) : (within n).pass d k =
    (within n, if k = .punct .semicolon then .punct .blockSemicolon else k) := by
  have settled : (within n).settle k = within n := rfl
  have positive : 0 < n := hn
  rw [pass, settled, enter_plain hk]
  by_cases hsemicolon : k = .punct .semicolon
  · simp [hsemicolon, positive, finish, within]
  · simp [hsemicolon, finish, within]

theorem level_pass_plain (hk : k.IsPlain) (n : Nat) : ((within n).pass d k).1.level = n := by
  have settled : (within n).settle k = within n := rfl
  rw [pass, settled, enter_plain hk]
  exact level_finish _ _

theorem pass_begin : (within n).pass d (.keyword .BEGIN) = (within (n + 1), .keyword .BEGIN) := rfl

theorem pass_case : (within n).pass d (.keyword .CASE) = (within (n + 1), .keyword .CASE) := rfl

theorem pass_loop : (within n).pass d (.keyword .LOOP) = (within (n + 1), .keyword .LOOP) := rfl

theorem pass_if : (within n).pass d (.keyword .IF) = (within n, .keyword .IF) := rfl

theorem pass_end (hn : 1 ≤ n) :
    (within n).pass d (.keyword .END) = (closing n, .keyword .END) := by
  have positive : 0 < (within n).level := hn
  have settled : (within n).settle (.keyword .END) = within n := rfl
  rw [pass, settled, enter, if_pos positive]
  rfl

/-- A token behind END, unless it is IF, finds the block closed. -/
theorem pass_closing (hk : k ≠ .keyword .IF) :
    (closing (n + 1)).pass d k = (within n).pass d k := by
  have settled : (closing (n + 1)).settle k = (within n).settle k := by
    simp [settle, closing, within, hk]
  rw [pass, pass, settled]

/-- IF behind END shows that the END closes no block. -/
theorem pass_closing_if : (closing n).pass d (.keyword .IF) = (within n, .keyword .IF) := rfl

/-! ## Several tokens -/

theorem Passes.plain (hk : k.IsPlain) (hn : 1 ≤ n) (rest : Passes d (within n) ks s) :
    Passes d (within n) (k :: ks) s := by
  rw [Passes, pass_plain hk hn]
  refine ⟨?_, rest⟩
  by_cases hsemicolon : k = .punct .semicolon
  · simp [hsemicolon]
  · simp [hsemicolon]

theorem isPlain_semicolon : (TokenKind.punct .semicolon).IsPlain := by
  simp [IsPlain]

theorem IsPlain.ne_if (hk : k.IsPlain) : k ≠ .keyword .IF := by
  intro h
  exact hk.1 (by simp [h])

/-- A plain token behind the END of a block that stands inside another one. -/
theorem Passes.closed (hk : k.IsPlain) (hn : 1 ≤ n) (rest : Passes d (within n) ks s) :
    Passes d (closing (n + 1)) (k :: ks) s := by
  have same : (closing (n + 1)).pass d k = (within n).pass d k := pass_closing (IsPlain.ne_if hk)
  rw [Passes, same]
  exact Passes.plain hk hn rest

/-- The word behind an END that closes a block opens another one if it is one that opens blocks. -/
theorem Passes.reopened {word : Keyword} (hword : word = .CASE ∨ word = .LOOP) (hn : 1 ≤ n)
    (rest : Passes d (within (n + 1)) ks s) :
    Passes d (closing (n + 1)) (.keyword word :: .punct .semicolon :: ks) s := by
  have behind : Passes d (within (n + 1)) (.punct .semicolon :: ks) s :=
    .plain isPlain_semicolon (Nat.le_succ_of_le hn) rest
  rcases hword with rfl | rfl
  · exact .cons ((pass_closing (by simp)).trans pass_case) (by simp) behind
  · exact .cons ((pass_closing (by simp)).trans pass_loop) (by simp) behind

/-- A body between the word that begins it and END. -/
theorem Passes.enclosed {m m' : Nat} {opening : TokenKind} {body : List TokenKind}
    (opens : (within n).pass d opening = (within m, opening)) (hopening : opening ≠ .punct .semicolon)
    (inside : Passes d (within m) body (within m')) (hm : 1 ≤ m')
    (rest : Passes d (closing m') ks s) :
    Passes d (within n) (opening :: body ++ .keyword .END :: ks) s := by
  have ended : Passes d (within m') (.keyword .END :: ks) s := .cons (pass_end hm) (by simp) rest
  exact .cons opens hopening (inside.append ended)

/-- A body whose first word opens a block. -/
theorem Passes.deepened {m : Nat} {opening : TokenKind} {body : List TokenKind}
    (opens : (within n).pass d opening = (within (n + 1), opening))
    (hopening : opening ≠ .punct .semicolon)
    (inside : Passes d (within (n + 1)) body (within (n + 1 + m)))
    (rest : Passes d (closing (n + m + 1)) ks s) :
    Passes d (within n) (opening :: body ++ .keyword .END :: ks) s := by
  have levels : n + 1 + m = n + m + 1 := Nat.add_right_comm n 1 m
  rw [levels] at inside
  exact .enclosed opens hopening inside (Nat.le_add_left 1 _) rest

end BlockState

namespace TokenKind

variable {opening k : TokenKind} {body ks : List TokenKind}

theorem reopenings_enclosed (h : opening ≠ .keyword .END) (ks : List TokenKind) :
    reopenings (opening :: body ++ .keyword .END :: ks) =
      reopenings body + reopenings (.keyword .END :: ks) := by
  rw [List.cons_append, reopenings_cons h, reopenings_append_end]

theorem reopenings_end_plain (hk : k.IsPlain) (ks : List TokenKind) :
    reopenings (.keyword .END :: k :: ks) = reopenings ks := by
  have words : ¬ (k = .keyword .CASE ∨ k = .keyword .LOOP) := by
    intro h
    exact hk.1 (by rcases h with rfl | rfl <;> simp)
  rw [reopenings, if_neg words, Nat.zero_add, reopenings_cons (fun h => hk.1 (by simp [h]))]

theorem reopenings_end_word {word : Keyword} (h : word = .CASE ∨ word = .LOOP)
    (ks : List TokenKind) :
    reopenings (.keyword .END :: .keyword word :: .punct .semicolon :: ks) = reopenings ks + 1 := by
  rcases h with rfl | rfl <;> simp [reopenings, Nat.add_comm]

theorem reopenings_end_if (ks : List TokenKind) :
    reopenings (.keyword .END :: .keyword .IF :: .punct .semicolon :: ks) = reopenings ks := by
  simp [reopenings]

open BlockState

/-- A well-nested body leads back to where it began, but for the levels that are opened again. -/
theorem WellNested.passes (h : WellNested ks) (d : Dialect) {n : Nat} (hn : 1 ≤ n) :
    Passes d (within n) ks (within (n + reopenings ks)) := by
  have reopened (n a b : Nat) : n + (a + (b + 1)) = n + a + 1 + b := by omega
  induction h generalizing n with
  | nil => rfl
  | plain hk _ ih =>
    rw [reopenings_cons (fun h => hk.1 (by simp [h]))]
    exact .plain hk hn (ih hn)
  | @block body ks _ _ inside rest =>
    rw [reopenings_enclosed (by simp), reopenings_end_plain isPlain_semicolon, ← Nat.add_assoc]
    apply Passes.deepened pass_begin (by simp) (inside (by omega))
    exact .closed isPlain_semicolon (by omega) (rest (by omega))
  | @caseExpr body k ks _ hk _ inside rest =>
    rw [reopenings_enclosed (by simp), reopenings_end_plain hk, ← Nat.add_assoc]
    apply Passes.deepened pass_case (by simp) (inside (by omega))
    exact .closed hk (by omega) (rest (by omega))
  | @caseBlock body ks _ _ inside rest =>
    rw [reopenings_enclosed (by simp), reopenings_end_word (.inl rfl), reopened]
    apply Passes.deepened pass_case (by simp) (inside (by omega))
    exact .reopened (.inl rfl) (by omega) (rest (by omega))
  | @loop body ks _ _ inside rest =>
    rw [reopenings_enclosed (by simp), reopenings_end_word (.inr rfl), reopened]
    apply Passes.deepened pass_loop (by simp) (inside (by omega))
    exact .reopened (.inr rfl) (by omega) (rest (by omega))
  | @branch body ks _ _ inside rest =>
    rw [reopenings_enclosed (by simp), reopenings_end_if, ← Nat.add_assoc]
    apply Passes.enclosed pass_if (by simp) (inside hn) (by omega)
    exact .cons pass_closing_if (by simp) (.plain isPlain_semicolon (by omega) (rest (by omega)))

end TokenKind

namespace BlockState

open TokenKind

variable {d : Dialect} {s : BlockState} {front body : List Token} {last : Token}

/-- A token that ends the statement stands outside of all blocks. -/
theorem level_of_enter_semicolon {k : TokenKind} (h : (s.enter d k).2 = .punct .semicolon) :
    (s.enter d k).1.level = 0 := by
  unfold enter at h ⊢
  split at h
  all_goals repeat' split at h
  all_goals simp_all

/-- Where a statement begins, no block is open. -/
theorem level_of_atStart (h : (start.after d front).atStart = true) :
    (start.after d front).level = 0 := by
  rcases List.eq_nil_or_concat front with rfl | ⟨ts, t, rfl⟩
  · rfl
  · rw [List.concat_eq_append, after_append] at h ⊢
    generalize start.after d ts = s at h ⊢
    change ((s.pass d t.kind).1).atStart = true at h
    change ((s.pass d t.kind).1).level = 0
    unfold pass finish at h ⊢
    dsimp only at h ⊢
    by_cases hsemicolon : ((s.settle t.kind).enter d t.kind).2 = .punct .semicolon
    · rw [if_pos hsemicolon]
      exact level_of_enter_semicolon hsemicolon
    · rw [if_neg hsemicolon] at h
      cases h

/-- Inside a block, and with nothing begun, the state is known by its level. -/
theorem after_eq_within (inside : 1 ≤ (start.after d front).level)
    (settled : (start.after d front).pendingEnd = false)
    (begun : (start.after d front).awaitsBegin = false) (head : (start.after d front).head = .none) :
    start.after d front = within (start.after d front).level := by
  have middle : (start.after d front).atStart = false := by
    cases h : (start.after d front).atStart with
    | false => rfl
    | true =>
      have outside := level_of_atStart h
      omega
  generalize start.after d front = s at *
  obtain ⟨level, awaitsBegin, pendingEnd, atStart, begun'⟩ := s
  simp_all [within]

/-- Behind a well-nested body, which stands in a block, and one more token, the nesting is as deep
as in front of it and one level deeper for each `END CASE` and `END LOOP`. No semicolon of the body
ends the statement, and an END behind the body closes one level. -/
theorem level_after_body (nested : WellNested (body.map (·.kind))) (plain : last.kind.IsPlain)
    (inside : 1 ≤ (start.after d front).level)
    (settled : (start.after d front).pendingEnd = false)
    (begun : (start.after d front).awaitsBegin = false)
    (head : (start.after d front).head = .none) :
    (start.after d (front ++ body ++ [last])).level =
        (start.after d front).level + reopenings (body.map (·.kind)) ∧
      (∀ t ∈ (start.after d front).track d body, t.1.kind ≠ .punct .semicolon) ∧
      ∀ fin : Token, fin.kind = .keyword .END →
        (start.after d (front ++ body ++ [fin, last])).level + 1 =
          (start.after d front).level + reopenings (body.map (·.kind)) := by
  have here := after_eq_within inside settled begun head
  generalize (start.after d front).level = n at here inside ⊢
  have passes := nested.passes d inside
  have behind : start.after d (front ++ body) = within (n + reopenings (body.map (·.kind))) := by
    rw [after_append, here]
    exact passes.after
  generalize reopenings (body.map (·.kind)) = more at passes behind ⊢
  refine ⟨?_, ?_, ?_⟩
  · have one : (within (n + more)).after d [last] = within (n + more) :=
      Passes.after (.plain plain (by omega) rfl)
    rw [after_append, behind, one]
    rfl
  · rw [here]
    exact passes.track
  · intro fin hfin
    have ended : (within (n + more)).after d [fin] = closing (n + more) := by
      change ((within (n + more)).pass d fin.kind).1 = _
      rw [hfin, pass_end (by omega)]
    obtain ⟨m, hm⟩ : ∃ m, n + more = m + 1 := ⟨n + more - 1, by omega⟩
    have closed : (closing (m + 1)).pass d last.kind = (within m).pass d last.kind :=
      pass_closing (IsPlain.ne_if plain)
    have level : (((closing (m + 1)).after d [last]).level) = m := by
      change ((closing (m + 1)).pass d last.kind).1.level = m
      rw [closed, level_pass_plain plain]
    rw [after_append, behind, ← List.singleton_append, after_append, ended, hm, level]

/-- In the block of `DECLARE BEGIN` the body `LOOP CASE x END; END LOOP;` ends one level deeper than
it begins: the CASE is closed and the LOOP is opened again. -/
theorem level_after_loop :
    let token (k : TokenKind) : Token := ⟨k, [], [], .start⟩
    let front := [.keyword .DECLARE, .keyword .BEGIN].map token
    let body := [.keyword .LOOP, .keyword .CASE, .identifier "x", .keyword .END, .punct .semicolon,
      .keyword .END, .keyword .LOOP, .punct .semicolon].map token
    WellNested (body.map (·.kind)) ∧ (start.after .oracle front).level = 1 ∧
      (start.after .oracle (front ++ body ++ [token (.identifier "x")])).level = 2 := by
  intro token front body
  have name : (TokenKind.identifier "x").IsPlain := by simp [IsPlain]
  have inside : WellNested [.keyword .CASE, .identifier "x", .keyword .END, .punct .semicolon] :=
    .caseExpr (.plain name .nil) isPlain_semicolon .nil
  have nested : WellNested (body.map (·.kind)) := .loop inside .nil
  have behind : (start.after .oracle (front ++ body ++ [token (.identifier "x")])).level = 1 + 1 :=
    (@level_after_body .oracle front body _ nested name (Nat.le_refl 1) rfl rfl rfl).1
  exact ⟨nested, rfl, behind⟩

end BlockState

end BoundSql
