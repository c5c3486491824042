import BoundSql.Proofs.Grammar.Marking

/-!
# Texts that are taken from tokens

The name of a function is made of names with points between them, that of a type of one or two
words, and an operator is read off its token. On tokens with a property `T`, these texts are made of
tokens that have it: `Called T`, `DataType.Typed T` and `Operator.Spelled T` say so.
-/

namespace BoundSql

open Parse Grammar

/-- Some token with the property is this name. -/
def Named (T : Token → Prop) (s : String) : Prop := ∃ t, T t ∧ t.toWord.Calls true s

/-- The name of a function is made of names that tokens with the property are. -/
def Called (T : Token → Prop) (function : String) : Prop :=
  ∃ parts, (∀ s ∈ parts, Named T s) ∧ function = String.intercalate "." parts

/-- An operator that dialects read in different ways is that of a token with the property. -/
structure Operator.Spelled (T : Token → Prop) (op : Operator) : Prop where
  regexp : op.isRegexp → ∃ t, T t ∧ Infix.ofToken? t.kind = some (.binary op)
  tilde : op = .bitNot → ∃ t, T t ∧ t.kind = .punct .bitNot

namespace DataType

/-- The name of a type of one word or of two. -/
def fullName (first : String) : Option String → String
  | none => first
  | some second => first ++ " " ++ second

/-- The second word of the name of a type, in any case. -/
def IsSecond (s : String) : Prop := s.toUpper = "PRECISION" ∨ s.toUpper = "VARYING"

/-- The name of the type begins with a token with the property, unless the type is that of a literal
with a keyword in front of it. -/
inductive Typed (T : Token → Prop) : DataType → Prop
  | ofParts {t : Token} {second : Option String} (args : List UInt32) (token : T t)
    (opens : t.toWord.OpensType) (isSecond : ∀ s ∈ second, IsSecond s) :
    Typed T (.ofParts (fullName t.text second) args)
  | literal {k : Keyword} {type : DataType} (typed : typedLiteral? k = some type) : Typed T type

end DataType

variable {T : Token → Prop} {t : Token} {s : String} {op : Operator}

theorem Word.Calls.behind {w : Word} (h : w.Calls false s) : w.Calls true s := by
  cases h with
  | identifier kind => exact .identifier kind
  | keyword kind _ => exact .keyword kind (.inl rfl)

theorem Called.of_keyword {k : Keyword} (token : T t) (kind : t.kind = .keyword k) :
    Called T t.text := by
  refine ⟨[t.text], List.forall_mem_singleton.2 ⟨t, token, ?_⟩, (String.intercalate_singleton).symm⟩
  exact .keyword kind (.inl rfl)

namespace Operator.Spelled

theorem of_plain (noMatch : op.isRegexp = false) (noTilde : op ≠ .bitNot) : op.Spelled T where
  regexp isMatch := absurd isMatch (by simp [noMatch])
  tilde isTilde := absurd isTilde noTilde

theorem of_binary (token : T t) (h : Infix.ofToken? t.kind = some (.binary op)) : op.Spelled T where
  regexp _ := ⟨t, token, h⟩
  tilde isTilde := by
    subst isTilde
    cases kind : t.kind with
    | keyword k =>
      rw [kind] at h
      cases k <;> cases h
    | punct p =>
      rw [kind] at h
      cases p <;> cases h
    | _ =>
      rw [kind] at h
      cases h

theorem of_tilde (token : T t) (kind : t.kind = .punct .bitNot) : Operator.bitNot.Spelled T where
  regexp isMatch := by cases isMatch
  tilde _ := ⟨t, token, kind⟩

end Operator.Spelled

namespace Parse

theorem yields_name (what : String) : YieldsOn T (Named T) (name what) := by
  refine yields_current fun t token => ?_
  split
  · rename_i text kind
    exact yields_behind fun _ => yields_pure ⟨t, token, .identifier kind⟩
  · rename_i k kind
    split
    · exact yields_fail _
    · exact yields_behind fun _ => yields_pure ⟨t, token, .keyword kind (.inl rfl)⟩
  · exact yields_fail _

theorem yields_memberName : YieldsOn T (Named T) memberName := by
  refine yields_current fun t token => ?_
  split
  · rename_i k kind
    exact yields_behind fun _ => yields_pure ⟨t, token, .keyword kind (.inl rfl)⟩
  · exact yields_name _

end Parse

namespace Grammar

theorem yields_firstTypeWord :
    YieldsOn T (fun s => ∃ t, T t ∧ t.toWord.OpensType ∧ s = t.text) firstTypeWord := by
  refine yields_current fun t token => ?_
  split
  · rename_i text kind
    exact yields_behind fun _ => yields_pure ⟨t, token, .inl ⟨text, kind⟩, rfl⟩
  · rename_i k kind
    exact yields_behind fun _ => yields_pure ⟨t, token, .inr ⟨k, kind⟩, rfl⟩
  · exact yields_fail _

theorem yields_secondTypeWord :
    YieldsOn T (fun o => ∀ s ∈ o, DataType.IsSecond s) secondTypeWord := by
  refine yields_behind fun k => ?_
  split
  · split
    · rename_i second
      refine yields_behind fun _ => yields_pure ?_
      rintro _ ⟨⟩
      simpa [DataType.IsSecond] using second
    · exact yields_none
  · exact yields_none

instance : Advances typeArgument := rel_typeArgument (R := advancing)

theorem yields_dataType : YieldsOn T (DataType.Typed T) dataType := by
  refine yields_firstTypeWord.bind fun first hfirst => ?_
  obtain ⟨t, token, opens, rfl⟩ := hfirst
  refine yields_secondTypeWord.bind fun second hsecond => ?_
  have typed (args : List UInt32) := DataType.Typed.ofParts args token opens hsecond
  cases second with
  | none =>
    refine yields_behind fun opened => ?_
    split
    · exact yields_behind fun args => yields_pure (typed args)
    · exact yields_pure (typed [])
  | some second =>
    refine yields_behind fun opened => ?_
    split
    · exact yields_behind fun args => yields_pure (typed args)
    · exact yields_pure (typed [])

end Grammar

end BoundSql
