import BoundSql.Proofs.Grammar.Marking
import BoundSql.Proofs.Param.Key

/-!
# What placeholders are worth

A text is worth what the keys of its placeholders are, if each parameter of a tree is worth its key
and no other leaf is worth less than nothing: `Weights.OfKeys.marking`.
-/

namespace BoundSql

open Parse

namespace Word

/-- The keys that words declare, one after the other. -/
def keys (ws : List Word) : List ParamKey := ws.filterMap (·.kind.key?)

variable {w : Word}

theorem keys_cons_of_none (h : w.kind.key? = none) (ws : List Word) : keys (w :: ws) = keys ws :=
  List.filterMap_cons_none h

theorem keys_cons_of_some {key : ParamKey} (h : w.kind.key? = some key) (ws : List Word) :
    keys (w :: ws) = key :: keys ws := List.filterMap_cons_some h

theorem Calls.key?_eq_none {behindPoint : Bool} {s : String} (h : w.Calls behindPoint s) :
    w.kind.key? = none := by
  cases h with
  | identifier kind => simp [kind, TokenKind.key?]
  | keyword kind _ => simp [kind, TokenKind.key?]

/-- Names declare nothing. -/
theorem Dotted.keys_append {us : List Word} {parts : List String} (dotted : Dotted us parts)
    (ws : List Word) : keys (us ++ ws) = keys ws := by
  obtain ⟨calls, members⟩ := dotted
  rw [List.cons_append, keys_cons_of_none calls.key?_eq_none]
  induction members with
  | nil => rfl
  | cons point calls' _ ih =>
    rw [List.cons_append, List.cons_append, keys_cons_of_none (by rw [point]; rfl),
      keys_cons_of_none calls'.key?_eq_none]
    exact ih

end Word

variable {N : Type} [AddMonoid N]

/-- A parameter is worth what its key is, and all other leaves nothing or more. `total` is what keys
are worth together. -/
structure Weights.OfKeys [Preorder N] (w : Weights N) (total : List ParamKey → N) : Prop where
  nil : total [] ≤ 0
  param_le : ∀ p keys, ↑(total (p.key :: keys)) ≤ w.param p + ↑(total keys)
  name : ∀ s, 0 ≤ w.name s
  names : ∀ parts, 0 ≤ w.names parts
  function : ∀ s, 0 ≤ w.function s
  wildcard : ∀ s, 0 ≤ w.wildcard s
  assigned : ∀ s, 0 ≤ w.assigned s
  collation : ∀ s, 0 ≤ w.collation s
  type : ∀ t, 0 ≤ w.type t
  join : ∀ kind, 0 ≤ w.join kind

namespace Weights.OfKeys

variable [Preorder N] [AddRightMono N] {w : Weights N} {total : List ParamKey → N}

omit [AddMonoid N] [AddRightMono N] in
/-- A word that declares nothing is worth nothing. -/
theorem idle {k : TokenKind} (h : k.key? = none) : Idle (fun ws => total (Word.keys ws)) k := by
  rintro w ws rfl
  exact (congrArg total (Word.keys_cons_of_none h ws)).le

/-- A word that declares nothing can stand for a leaf. -/
theorem idle_add {w : Word} (h : w.kind.key? = none) {x : WithTop N} (hx : 0 ≤ x) (ws : List Word) :
    (↑(total (Word.keys (w :: ws))) : WithTop N) ≤ x + ↑(total (Word.keys ws)) :=
  (WithTop.coe_le_coe.2 (idle h w ws rfl)).trans (le_add_of_nonneg_left hx)

/-- A name can stand for a leaf. -/
theorem dotted_le {us : List Word} {parts : List String} (dotted : Word.Dotted us parts)
    {x : WithTop N} (hx : 0 ≤ x) (ws : List Word) :
    (↑(total (Word.keys (us ++ ws))) : WithTop N) ≤ x + ↑(total (Word.keys ws)) := by
  rw [dotted.keys_append]
  exact le_add_of_nonneg_left hx

/-- The words of a text are worth what the keys of its placeholders are. -/
def marking (h : w.OfKeys total) : Marking N where
  toWeights := w
  marks ws := total (Word.keys ws)
  marks_nil := h.nil
  idle_eof := idle rfl
  idle_keyword k _ := idle rfl
  idle_punct p _ _ := idle rfl
  idle_literal k l literal := idle (by cases k <;> first | rfl | cases literal)
  param_le v ws p l kind := by
    have declares : v.kind.key? = some p.key := by rw [kind]; rfl
    rw [Word.keys_cons_of_some declares]
    exact h.param_le { key := p.key, default := l, nullBound := false } _
  hostParam_le v ws s kind := by
    have declares : v.kind.key? = some (.named s) := by rw [kind]; rfl
    rw [Word.keys_cons_of_some declares]
    exact h.param_le (.ofKey (.named s)) _
  name_le v ws s calls := idle_add calls.key?_eq_none (h.name s) ws
  names_le us ws parts dotted := dotted_le dotted (h.names parts) ws
  wildcard_le us dot v ws parts dotted point star := by
    rw [dotted.keys_append, Word.keys_cons_of_none (by rw [point]; rfl)]
    exact idle_add (by rw [star]; rfl) (h.wildcard _) ws
  function_le us ws parts dotted := dotted_le dotted (h.function _) ws
  assigned_le us ws parts dotted := dotted_le dotted (h.assigned _) ws
  label_le as v ws s kind called := by
    refine (WithTop.coe_le_coe.2 (idle (by rw [kind]; rfl) as _ rfl)).trans ?_
    rcases called with string | calls
    · exact idle_add (by rw [string]; rfl) (h.name s) ws
    · exact idle_add calls.key?_eq_none (h.name s) ws
  type_le front v ws more args hfront opens := by
    refine (WithTop.coe_le_coe.2 (idle ?_ front _ rfl)).trans (idle_add ?_ (h.type _) ws)
    · rcases hfront with kind | kind <;> rw [kind] <;> rfl
    · rcases opens with ⟨s, kind⟩ | ⟨k, kind⟩ <;> rw [kind] <;> rfl
  idle_secondWord s _ := idle rfl
  zero_le_literalType _ t _ := h.type t
  call_le v u ws kind _ := idle (by rcases kind with kind | kind <;> rw [kind] <;> rfl) v _ rfl
  zero_le_function := h.function
  collation_le v ws s called := by
    refine idle_add ?_ (h.collation s) ws
    rcases called with string | calls
    · rw [string]
      rfl
    · exact calls.key?_eq_none
  zero_le_cross := h.join .cross
  zero_le_inner := h.join .inner
  outer_le v u ws k j kind _ _ := idle_add (by rw [kind]; rfl) (h.join j) _
  natural_le v u ws kind _ := idle_add (by rw [kind]; rfl) (h.join .natural) _
  naturalKind_le v u ws kind behind := by
    refine (WithTop.coe_le_coe.2 (idle (by rw [kind]; rfl) v _ rfl)).trans
      (idle_add ?_ (h.join .natural) ws)
    rcases behind with kind | ⟨k, j, kind, -⟩ <;> rw [kind] <;> rfl

end Weights.OfKeys

end BoundSql
