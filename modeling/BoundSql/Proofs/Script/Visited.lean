import BoundSql.Proofs.Render.Declared
import BoundSql.Proofs.Tree.Visited

/-!
# Visits and placeholders

A visit to the expressions of a statement comes to each placeholder of its text once, and to those
among certain keys in the order of the text if the tree has them where this is the order of visits:
`Parsed.keys_visited`.
-/

namespace BoundSql

/-! ## Keys of tokens -/

/-- The key of a parameter among those that tokens hold. -/
def Bag.key? : Except LexicalError ParamRef → Option ParamKey
  | .ok p => some p.key
  | .error _ => none

theorem Bag.filterMap_ofParams (ps : List ParamRef) :
    (ofParams ps).filterMap key? = ↑(ps.map (·.key)) := by
  rw [ofParams, Multiset.filterMap_coe, List.filterMap_map]
  exact congrArg Multiset.ofList (List.filterMap_eq_map (f := ParamRef.key) ▸ rfl)

theorem TokenKind.filterMap_bag (k : TokenKind) : k.bag.filterMap Bag.key? = ↑k.key?.toList := by
  cases k <;> rfl

theorem Bag.filterMap_tokens (ts : List Token) :
    Multiset.filterMap key? (ts.map (·.kind.bag)).sum =
      Multiset.ofList (ts.filterMap (·.kind.key?)) := by
  induction ts with
  | nil => rfl
  | cons t ts ih =>
    rw [List.map_cons, List.sum_cons, Multiset.filterMap_add, ih, t.kind.filterMap_bag,
      List.filterMap_cons, Multiset.coe_add]
    cases t.kind.key? <;> rfl

/-- The tokens declare the keys of the parameters that they hold. -/
theorem Holds.perm_keys {ts : List Token} {ps : List ParamRef} (h : Holds ts ps) :
    (ps.map (·.key)).Perm (ts.filterMap fun t => t.kind.key?) := by
  rw [← Multiset.coe_eq_coe, ← Bag.filterMap_ofParams, ← Bag.filterMap_tokens]
  exact congrArg (Multiset.filterMap Bag.key?) h.symm

/-! ## Two parameters -/

section

variable {α : Type} [DecidableEq α]

/-- Lists are equal if any two members stand in the same order in both. -/
theorem eq_of_filter_pairs {l l' : List α} (h : ∀ x y,
    l.filter (fun k => k = x ∨ k = y) = l'.filter fun k => k = x ∨ k = y) : l = l' := by
  induction l generalizing l' with
  | nil =>
    cases l' with
    | nil => rfl
    | cons b l' => simpa using h b b
  | cons a l ih =>
    cases l' with
    | nil => simpa using h a a
    | cons b l' =>
      obtain ⟨rfl, -⟩ : a = b ∧ _ := by simpa using h a b
      refine congrArg (a :: ·) (ih fun x y => ?_)
      have tails := h x y
      rw [List.filter_cons, List.filter_cons] at tails
      split at tails
      · exact (List.cons.inj tails).2
      · exact tails

/-- Of two members that a list has once, in this order, nothing else is left. -/
theorem filter_eq_pair {l : List α} {a b : α} {p : α → Bool} (inside : [a, b].Sublist l)
    (onceA : l.count a = 1) (onceB : l.count b = 1) (pair : ∀ k, p k ↔ k = a ∨ k = b) :
    l.filter p = [a, b] := by
  have kept : [a, b].Sublist (l.filter p) := by
    have both : [a, b].filter p = [a, b] := List.filter_eq_self.2 fun k hk =>
      (pair k).2 (by simpa using hk)
    exact both ▸ inside.filter p
  have single : (l.filter p).Nodup := by
    refine List.nodup_iff_count_le_one.2 fun k => ?_
    by_cases hk : p k
    · rw [List.count_filter hk]
      rcases (pair k).1 hk with rfl | rfl <;> omega
    · exact (List.count_eq_zero_of_not_mem fun h => hk (List.mem_filter.1 h).2).trans_le zero_le_one
  have within : l.filter p ⊆ [a, b] := fun k hk => by
    simpa using (pair k).1 (List.mem_filter.1 hk).2
  exact (kept.eq_of_length_le (List.subperm_of_subset single within).length_le).symm

/-- Lists with the same members agree on two of them that both have once, in the same order. -/
theorem filter_eq_of_pair {l l' : List α} (perm : l.Perm l') {a b : α} {p : α → Bool}
    (inside : [a, b].Sublist l) (inside' : [a, b].Sublist l') (onceA : l'.count a = 1)
    (onceB : l'.count b = 1) (pair : ∀ k, p k ↔ k = a ∨ k = b) : l.filter p = l'.filter p := by
  rw [filter_eq_pair inside (perm.count_eq a ▸ onceA) (perm.count_eq b ▸ onceB) pair,
    filter_eq_pair inside' onceA onceB pair]

end

/-! ## Statements -/

namespace Statement

variable {s : ParseSettings} {delimiter text : List Char} {st : Statement}

/-- The keys of the placeholders in the text of a statement, one after the other. -/
def placeholderKeys (d : Dialect) (st : Statement) : List ParamKey :=
  (st.declarations d).map ParamSpec.key

theorem Parsed.perm_visitedKeys (h : st.Parsed s delimiter text)
    (taken : ∀ parts, st.body ≠ .verbatim parts) :
    st.body.visitedKeys.Perm (st.placeholderKeys s.dialect) := by
  rw [Body.visitedKeys_eq taken, placeholderKeys, declarations, ParamSpec.map_key_ofToken?]
  exact h.holds.1.perm_keys

/-- Certain parameters are visited in the order of the text if the tree tells that. -/
theorem Parsed.filter_visitedKeys (h : st.Parsed s delimiter text)
    (taken : ∀ parts, st.body ≠ .verbatim parts) {among : ParamKey → Bool}
    (inOrder : st.body.EveryQuery fun q => q.SourceInOrder among ∧ q.OneBound among) :
    st.body.visitedKeys.filter among = (st.placeholderKeys s.dialect).filter among := by
  have same := h.marks_le_worth (Weights.ofKeys_countAmong among).marking
  have bound := same.trans (Body.worth_of_visitsInOrder taken h.holds.2 inOrder).le
  -- The order of the monoid is equality.
  rw [placeholderKeys, ← keys_allWords]
  exact (WithTop.coe_le_coe.1 bound).symm

/-- A visit to the expressions of a statement that is taken apart comes to each placeholder of its
text once, and to those among certain keys in the order of the text. This needs that in each query
none of them in the condition of a join has another in a later target behind it, and that those in
LIMIT and those in OFFSET, if it has both, stand in the text once, those in LIMIT first. -/
theorem Parsed.keys_visited (h : st.Parsed s delimiter text)
    (taken : ∀ parts, st.body ≠ .verbatim parts) :
    st.body.visitedKeys.Perm (st.placeholderKeys s.dialect) ∧
      ∀ among, st.body.VisitsInOrder among (st.placeholderKeys s.dialect) →
        st.body.visitedKeys.filter among = (st.placeholderKeys s.dialect).filter among := by
  have perm := h.perm_visitedKeys taken
  refine ⟨perm, fun among inOrder => eq_of_filter_pairs fun x y => ?_⟩
  rw [List.filter_filter, List.filter_filter]
  by_contra differ
  refine differ (h.filter_visitedKeys taken (inOrder.sublist.mono fun q hq => ?_))
  obtain ⟨⟨source, bounds⟩, inside⟩ := hq
  refine ⟨source.mono fun k hk => (Bool.and_eq_true_iff.1 hk).2, ?_⟩
  -- What stands in LIMIT and in OFFSET is nothing but the two parameters.
  by_contra both
  obtain ⟨⟨p, hp, keptP⟩, o, ho, keptO⟩ := (not_or.1 both).imp not_lacksAll.1 not_lacksAll.1
  simp only [Bool.and_eq_true, decide_eq_true_eq] at keptP keptO
  obtain ⟨onceP, onceO, inText⟩ := bounds p hp o ho keptP.2 keptO.2
  have apart : p.key ≠ o.key := by
    intro same
    have twice := inText.count_le p.key
    rw [← same, List.count_cons_self, List.count_singleton_self, onceP] at twice
    omega
  have visited : [p.key, o.key].Sublist st.body.visitedKeys := by
    have pair : [p, o].Sublist (q.boundParams.1 ++ q.boundParams.2) :=
      (List.singleton_sublist.2 hp).append (List.singleton_sublist.2 ho)
    exact (pair.trans (q.boundParams_sublist.trans inside)).map ParamRef.key
  refine differ (filter_eq_of_pair perm visited inText onceP onceO fun k => ?_)
  simp only [Bool.and_eq_true, decide_eq_true_eq]
  grind

/-- Behind LIMIT the offset can stand first, but it is visited last. -/
example :
    (Body.ofTokens 9 (Lexer.ofText Dialect.standard.lexicon
      "SELECT 1 LIMIT :m, :n".toList).tokens).toOption.map Body.visitedKeys =
        some [.named "n", .named "m"] := by
  decide +kernel

/-- `SELECT :a FROM t JOIN u ON :b LIMIT :c OFFSET :d`. -/
def ofClauses : Statement where
  sql := "SELECT :a FROM t JOIN u ON :b LIMIT :c OFFSET :d"
  body := .select
    { Select.ofColumns [⟨.param (.ofKey (.named "a")), none⟩] with
      source := some ⟨[⟨.table ⟨["t"]⟩, none⟩, ⟨.table ⟨["u"]⟩, none⟩],
        [⟨.inner, 1, .predicate (.param (.ofKey (.named "b")))⟩]⟩
      limit := some (.param (.ofKey (.named "c")))
      offset := some (.param (.ofKey (.named "d"))) }
  params := ⟨[.ofHost "a", .ofHost "b", .ofHost "c", .ofHost "d"], []⟩

theorem parsed_ofClauses : ofClauses.Parsed {} [] ofClauses.sql.toList := by
  let ts : List Token :=
    [.onLine (.keyword .SELECT) "" "SELECT" 0, .onLine (.hostParam "a") " " ":a" 7,
      .onLine (.keyword .FROM) " " "FROM" 10, .onLine (.identifier "t") " " "t" 15,
      .onLine (.keyword .JOIN) " " "JOIN" 17, .onLine (.identifier "u") " " "u" 22,
      .onLine (.keyword .ON) " " "ON" 24, .onLine (.hostParam "b") " " ":b" 27,
      .onLine (.keyword .LIMIT) " " "LIMIT" 30, .onLine (.hostParam "c") " " ":c" 36,
      .onLine (.keyword .OFFSET) " " "OFFSET" 39, .onLine (.hostParam "d") " " ":d" 46]
  let p : Piece := .onLine ts 48
  have found : ((Script.ofText [] ofClauses.sql.toList).settle .standard).piece {} = .ok p := by
    decide +kernel
  have inner : p.innerTokens .standard = ts ++ [p.terminator] := by decide +kernel
  exact parsed_of_piece found nofun inner rfl rfl rfl rfl rfl rfl

theorem Parsed.keys_visited_clauses :
    ofClauses.Parsed {} [] ofClauses.sql.toList ∧ (∀ parts, ofClauses.body ≠ .verbatim parts) ∧
      ofClauses.body.VisitsInOrder (fun _ => true) (ofClauses.placeholderKeys .standard) ∧
      ofClauses.placeholderKeys .standard = [.named "a", .named "b", .named "c", .named "d"] ∧
      ofClauses.body.visitedKeys = ofClauses.placeholderKeys .standard := by
  have taken : ∀ parts, ofClauses.body ≠ .verbatim parts := nofun
  have keys : ofClauses.placeholderKeys .standard =
      [.named "a", .named "b", .named "c", .named "d"] := by
    decide +kernel
  have inOrder :
      ofClauses.body.VisitsInOrder (fun _ => true) (ofClauses.placeholderKeys .standard) := by
    rw [keys]
    refine ⟨nofun, List.forall_mem_singleton.2 (.intro ⟨?_, ?_⟩ ?_ nofun)⟩
    · rintro f ⟨⟩ j hj
      rw [List.mem_singleton.1 hj]
      exact .inr nofun
    · intro p hp o ho _ _
      rw [List.mem_singleton.1 hp, List.mem_singleton.1 ho]
      decide
    · have leaf (p : ParamRef) :
          (Expr.param p).Everywhere (fun _ => True) fun q => q.SourceInOrder (fun _ => true) ∧
            q.LimitFirst (fun _ => true) [.named "a", .named "b", .named "c", .named "d"] :=
        .intro trivial nofun nofun
      intro x hx
      have params : x ∈ [Expr.param (.ofKey (.named "a")), .param (.ofKey (.named "b")),
        .param (.ofKey (.named "c")), .param (.ofKey (.named "d"))] := hx
      simp only [List.mem_cons, List.not_mem_nil, or_false] at params
      rcases params with rfl | rfl | rfl | rfl <;> exact leaf _
  have same := (parsed_ofClauses.keys_visited taken).2 _ inOrder
  rw [List.filter_true, List.filter_true] at same
  exact ⟨parsed_ofClauses, taken, inOrder, keys, same⟩

end Statement

end BoundSql
