import BoundSql.Grammar.Statement
import BoundSql.Proofs.Grammar.Follows
import Mathlib.Algebra.Order.BigOperators.Group.List

/-!
# Words that are worth what their tree is

A `Marking` says what words are worth and what the leaves of trees are, so that no word is worth more
than the leaf that is made of it. What a word is worth can depend on the words next to it: the one
behind a point, `AS` or `::` is a name or a type, and `LEFT` and `RIGHT` are functions in front of a
parenthesis.
-/

namespace BoundSql

open Parse Cursor Grammar

/-- The word is the name `s`. A name behind a point can be any keyword, others only one that is not
reserved. -/
inductive Word.Calls (behindPoint : Bool) (w : Word) : String → Prop
  | identifier {s : String} (h : w.kind = .identifier s) : Calls behindPoint w s
  | keyword {k : Keyword} (h : w.kind = .keyword k) (free : behindPoint ∨ k.isReserved = false) :
    Calls behindPoint w w.text

theorem Word.Calls.ne_eof {behindPoint : Bool} {w : Word} {s : String} (h : w.Calls behindPoint s) :
    w.kind ≠ .eof := by
  cases h with
  | identifier kind => simp [kind]
  | keyword kind _ => simp [kind]

/-- Points, and behind each of them the name that goes on with the texts. -/
inductive Word.Members : List Word → List String → Prop
  | nil : Members [] []
  | cons {dot w : Word} {ws : List Word} {s : String} {ss : List String}
    (point : dot.kind = .punct .dot) (calls : w.Calls true s) (rest : Members ws ss) :
    Members (dot :: w :: ws) (s :: ss)

/-- The words are a name with points between its parts. -/
inductive Word.Dotted : List Word → List String → Prop
  | mk {w : Word} {ws : List Word} {s : String} {ss : List String} (calls : w.Calls false s)
    (members : Members ws ss) : Dotted (w :: ws) (s :: ss)

namespace Word

variable {dot w : Word} {us : List Word} {s : String} {parts : List String}

theorem Members.concat (members : Members us parts) (point : dot.kind = .punct .dot)
    (calls : w.Calls true s) : Members (us ++ [dot, w]) (parts ++ [s]) := by
  induction members with
  | nil => exact .cons point calls .nil
  | cons point' calls' _ ih => exact .cons point' calls' ih

/-- A name with one more part. -/
theorem Dotted.concat (dotted : Dotted us parts) (point : dot.kind = .punct .dot)
    (calls : w.Calls true s) : Dotted (us ++ [dot, w]) (parts ++ [s]) := by
  obtain ⟨first, members⟩ := dotted
  exact .mk first (members.concat point calls)

theorem Dotted.single (calls : w.Calls false s) : Dotted [w] [s] := .mk calls .nil

end Word

/-- The word begins the name of a type. -/
def Word.OpensType (w : Word) : Prop := (∃ s, w.kind = .identifier s) ∨ ∃ k, w.kind = .keyword k

/-- The keyword, wherever it stands, says nothing about joins and leads to no name. -/
def Keyword.IsOrdinary (k : Keyword) : Prop :=
  k ≠ .AS ∧ k ≠ .LEFT ∧ k ≠ .RIGHT ∧ k ≠ .FULL ∧ k ≠ .NATURAL

instance (k : Keyword) : Decidable k.IsOrdinary := inferInstanceAs (Decidable (_ ∧ _))

/-- What an outer join is called by its keyword. -/
def JoinKind.ofOuter? : Keyword → Option JoinKind
  | .LEFT => some .left
  | .RIGHT => some .right
  | .FULL => some .full
  | _ => none

/-- What words are worth, and the leaves made of them. -/
structure Marking (N : Type) [AddMonoid N] [LE N] extends Weights N where
  marks : List Word → N
  marks_nil : marks [] ≤ 0
  idle_eof : Idle marks .eof
  idle_keyword : ∀ k : Keyword, k.IsOrdinary → Idle marks (.keyword k)
  idle_punct : ∀ p : Punct, p ≠ .dot → p ≠ .doubleColon → Idle marks (.punct p)
  idle_literal : ∀ k l, literal? k = some l → Idle marks k
  param_le : ∀ w ws p l, w.kind = .param p →
    ↑(marks (w :: ws)) ≤ param { key := p.key, default := l, nullBound := false } + ↑(marks ws)
  hostParam_le : ∀ w ws s, w.kind = .hostParam s →
    ↑(marks (w :: ws)) ≤ param (.ofKey (.named s)) + ↑(marks ws)
  name_le : ∀ w ws s, w.Calls false s → ↑(marks (w :: ws)) ≤ name s + ↑(marks ws)
  names_le : ∀ us ws parts, Word.Dotted us parts → ↑(marks (us ++ ws)) ≤ names parts + ↑(marks ws)
  wildcard_le : ∀ us dot w ws parts, Word.Dotted us parts → dot.kind = .punct .dot →
    w.kind = .punct .star →
    ↑(marks (us ++ dot :: w :: ws)) ≤ wildcard (String.intercalate "." parts) + ↑(marks ws)
  function_le : ∀ us ws parts, Word.Dotted us parts →
    ↑(marks (us ++ ws)) ≤ function (String.intercalate "." parts) + ↑(marks ws)
  assigned_le : ∀ us ws parts, Word.Dotted us parts →
    ↑(marks (us ++ ws)) ≤ assigned (String.intercalate "." parts) + ↑(marks ws)
  label_le : ∀ as w ws s, as.kind = .keyword .AS → w.kind = .string s ∨ w.Calls false s →
    ↑(marks (as :: w :: ws)) ≤ name s + ↑(marks ws)
  type_le : ∀ front w ws more args, front.kind = .keyword .AS ∨ front.kind = .punct .doubleColon →
    w.OpensType → ↑(marks (front :: w :: ws)) ≤ type (.ofParts (w.text ++ more) args) + ↑(marks ws)
  /-- The second word of a type. -/
  idle_secondWord : ∀ s : String, s.toUpper = "PRECISION" ∨ s.toUpper = "VARYING" →
    Idle marks (.identifier s)
  zero_le_literalType : ∀ k t, typedLiteral? k = some t → 0 ≤ type t
  call_le : ∀ w v ws, w.kind = .keyword .LEFT ∨ w.kind = .keyword .RIGHT →
    v.kind = .punct .leftParen → marks (w :: v :: ws) ≤ marks (v :: ws)
  zero_le_function : ∀ s, 0 ≤ function s
  collation_le : ∀ w ws s, w.kind = .string s ∨ w.Calls false s →
    ↑(marks (w :: ws)) ≤ collation s + ↑(marks ws)
  zero_le_cross : 0 ≤ join .cross
  zero_le_inner : 0 ≤ join .inner
  outer_le : ∀ w v ws k j, w.kind = .keyword k → JoinKind.ofOuter? k = some j →
    v.kind = .keyword .OUTER ∨ v.kind = .keyword .JOIN →
    ↑(marks (w :: v :: ws)) ≤ join j + ↑(marks (v :: ws))
  natural_le : ∀ w v ws, w.kind = .keyword .NATURAL →
    v.kind = .keyword .OUTER ∨ v.kind = .keyword .JOIN →
    ↑(marks (w :: v :: ws)) ≤ join .natural + ↑(marks (v :: ws))
  /-- The kind of a natural join is lost. -/
  naturalKind_le : ∀ w v ws, w.kind = .keyword .NATURAL →
    v.kind = .keyword .INNER ∨ (∃ k j, v.kind = .keyword k ∧ JoinKind.ofOuter? k = some j) →
    ↑(marks (w :: v :: ws)) ≤ join .natural + ↑(marks ws)

/-- Each word of a name is worth no more than its part. -/
structure PartwiseNames {N : Type} [AddMonoid N] [LE N] (marks : List Word → N)
    (part : String → WithTop N) : Prop where
  name_le : ∀ w ws s, w.Calls false s → ↑(marks (w :: ws)) ≤ part s + ↑(marks ws)
  member_le : ∀ dot w ws s, dot.kind = .punct .dot → w.Calls true s →
    ↑(marks (dot :: w :: ws)) ≤ part s + ↑(marks ws)
  star_le : ∀ dot w ws, dot.kind = .punct .dot → w.kind = .punct .star →
    marks (dot :: w :: ws) ≤ marks ws

namespace PartwiseNames

variable {N : Type} [AddMonoid N] [Preorder N] [AddLeftMono N] {marks : List Word → N}
  {part : String → WithTop N} {us : List Word} {parts : List String}

theorem members_le (h : PartwiseNames marks part) (members : Word.Members us parts) (ws : List Word) :
    ↑(marks (us ++ ws)) ≤ (parts.map part).sum + ↑(marks ws) := by
  induction members with
  | nil => simp
  | @cons dot w us s ss point calls rest ih =>
    rw [List.map_cons, List.sum_cons, add_assoc]
    exact (h.member_le dot w (us ++ ws) s point calls).trans (add_le_add_right ih _)

theorem names_le (h : PartwiseNames marks part) (dotted : Word.Dotted us parts) (ws : List Word) :
    ↑(marks (us ++ ws)) ≤ (parts.map part).sum + ↑(marks ws) := by
  obtain ⟨calls, members⟩ := dotted
  rw [List.map_cons, List.sum_cons, add_assoc]
  exact (h.name_le _ _ _ calls).trans (add_le_add_right (h.members_le members ws) _)

/-- The star behind a name is worth nothing. -/
theorem wildcard_le (h : PartwiseNames marks part) (dotted : Word.Dotted us parts) {dot w : Word}
    (point : dot.kind = .punct .dot) (star : w.kind = .punct .star) (ws : List Word) :
    ↑(marks (us ++ dot :: w :: ws)) ≤ (parts.map part).sum + ↑(marks ws) :=
  (h.names_le dotted _).trans
    (add_le_add_right (WithTop.coe_le_coe.2 (h.star_le dot w ws point star)) _)

end PartwiseNames

namespace Parse

variable {s s' : Cursor} {x : String}

theorem run_name {what : String} (run : (name what).run s = .ok (x, s')) :
    s.current.toWord.Calls false x ∧ s' = s.next := by
  rw [name, run_current_bind] at run
  split at run
  · rename_i kind
    cases run
    exact ⟨.identifier kind, rfl⟩
  · rename_i k kind
    split at run
    · cases run
    · rename_i free
      cases run
      exact ⟨.keyword kind (.inr (by simpa using free)), rfl⟩
  · cases run

theorem run_memberName (run : memberName.run s = .ok (x, s')) :
    s.current.toWord.Calls true x ∧ s' = s.next := by
  rw [memberName, run_current_bind] at run
  split at run
  · rename_i k kind
    cases run
    exact ⟨.keyword kind (.inl rfl), rfl⟩
  · obtain ⟨calls, rfl⟩ := run_name run
    refine ⟨?_, rfl⟩
    cases calls with
    | identifier kind => exact .identifier kind
    | keyword kind _ => exact .keyword kind (.inl rfl)

/-- A part of a name behind its point. -/
theorem words_of_member (closed : s.Closed) (point : s.current.kind = .punct .dot)
    (run : memberName.run s.next = .ok (x, s')) :
    ∃ dot w, dot.kind = .punct .dot ∧ w.Calls true x ∧ s.words = dot :: w :: s'.words ∧ s'.Closed := by
  obtain ⟨calls, rfl⟩ := run_memberName run
  refine ⟨s.current.toWord, s.next.current.toWord, point, calls, ?_, closed.next.next⟩
  rw [closed.words_eq point (by simp), closed.next.words_eq rfl calls.ne_eof]

theorem words_of_repeatFrom {us : List Word} {parts more : List String} (fuel : Nat)
    (closed : s.Closed) (dotted : Word.Dotted us parts)
    (run : (repeatFrom (fun parts => do
      if ← acceptSign .dot then return some (parts ++ [← memberName]) else return none) fuel
        parts).run s = .ok (more, s')) :
    ∃ us', Word.Dotted us' more ∧ us ++ s.words = us' ++ s'.words ∧ s'.Closed := by
  induction fuel generalizing us parts s with
  | zero =>
    cases run
    exact ⟨us, dotted, rfl, closed⟩
  | succ fuel ih =>
    rw [repeatFrom, bind_assoc, acceptSign, run_accept_bind] at run
    split at run
    · rename_i point
      rw [if_pos rfl, bind_assoc] at run
      obtain ⟨part, s₁, member, rest⟩ := run_bind_eq_ok run
      obtain ⟨dot, w, point, calls, words, closed'⟩ := words_of_member closed point member
      obtain ⟨us', dotted', whole, ended⟩ := ih closed' (dotted.concat point calls) rest
      refine ⟨us', dotted', ?_, ended⟩
      rw [← whole, words, List.append_assoc]
      rfl
    · cases run
      exact ⟨us, dotted, rfl, closed⟩

/-- What stands here is the name that is read, as far as it is read. -/
theorem words_of_qualifiedName {what : String} {i : Identifier} (closed : s.Closed)
    (run : (qualifiedName what).run s = .ok (i, s')) :
    ∃ us, Word.Dotted us i.parts ∧ s.words = us ++ s'.words ∧ s'.Closed := by
  obtain ⟨first, s₁, opened, rest⟩ := run_bind_eq_ok run
  obtain ⟨calls, rfl⟩ := run_name opened
  obtain ⟨parts, s₂, more, last⟩ := run_bind_eq_ok rest
  cases last
  obtain ⟨us, dotted, whole, ended⟩ := words_of_repeatFrom _ closed.next (.single calls) more
  exact ⟨us, dotted, by rw [closed.words_eq rfl calls.ne_eof, ← whole, List.singleton_append], ended⟩

theorem run_firstTypeWord (run : firstTypeWord.run s = .ok (x, s')) :
    s.current.toWord.OpensType ∧ x = s.current.text ∧ s' = s.next := by
  rw [firstTypeWord, run_current_bind] at run
  split at run
  · rename_i text kind
    cases run
    exact ⟨.inl ⟨text, kind⟩, rfl, rfl⟩
  · rename_i k kind
    cases run
    exact ⟨.inr ⟨k, kind⟩, rfl, rfl⟩
  · cases run

/-- What is read of a type behind its first word. -/
def dataTypeBehind (first : String) : Parse DataType := do
  let name := match ← secondTypeWord with
    | some second => first ++ " " ++ second
    | none => first
  if ← isAt (.punct .leftParen) then return .ofParts name (← parenthesized (commaSep typeArgument))
  else return .ofParts name []

theorem dataType_eq : dataType = firstTypeWord >>= dataTypeBehind := rfl

/-- The name of the type begins with its first word. -/
theorem yields_dataTypeBehind (first : String) :
    Yields (fun t => ∃ more args, t = DataType.ofParts (first ++ more) args)
      (dataTypeBehind first) := by
  refine yields_after fun second => yields_after fun opened => ?_
  cases second with
  | none =>
    split
    · exact yields_after fun args => yields_pure ⟨"", args, by simp⟩
    · exact yields_pure ⟨"", [], by simp⟩
  | some second =>
    split
    · exact yields_after fun args => yields_pure ⟨" " ++ second, args, by simp [String.append_assoc]⟩
    · exact yields_pure ⟨" " ++ second, [], by simp [String.append_assoc]⟩

end Parse

end BoundSql
