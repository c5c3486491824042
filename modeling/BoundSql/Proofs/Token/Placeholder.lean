import BoundSql.Proofs.Text.Trimmed
import BoundSql.Proofs.Token.Fixed
import Mathlib.Data.List.TakeWhile

/-!
# Placeholders as words

A body behind the mark `##` is one token that declares what its pieces say, `Placeholder.spells_body`,
and so is a comment behind the mark with what its attributes say, `Placeholder.spells_comment`.
-/

namespace BoundSql

open Text Token

namespace Placeholder

/-! ## Bodies -/

/-- The text is a piece by itself, whatever stands behind a mark `::` that follows it. -/
def IsSection (cs : List Char) : Prop := sections cs = [cs] ∧ cs.getLast? ≠ some ':'

instance (cs : List Char) : Decidable (IsSection cs) := inferInstanceAs (Decidable (_ ∧ _))

theorem sections_ne_nil (cs : List Char) : sections cs ≠ [] := by
  fun_cases sections cs <;> simp [*]

/-- A character that begins no mark belongs to the first piece. -/
theorem sections_cons {c : Char} {cs first : List Char} {others : List (List Char)}
    (h : c = ':' → cs.head? ≠ some ':') (rest : sections cs = first :: others) :
    sections (c :: cs) = (c :: first) :: others := by
  rw [sections.eq_def]
  split
  · rename_i heq
    cases heq
  · rename_i heq
    cases heq
    exact absurd rfl (h rfl)
  · rename_i heq
    cases heq
    rw [rest]

theorem sections_append {cs : List Char} (h : IsSection cs) (more : List Char) :
    sections (cs ++ ':' :: ':' :: more) = cs :: sections more := by
  induction cs with
  | nil => rw [List.nil_append, sections]
  | cons c cs ih =>
    obtain ⟨single, last⟩ := h
    have plain : c = ':' → cs.head? ≠ some ':' := by
      rintro rfl head
      cases cs with
      | nil => cases head
      | cons d cs =>
        cases head
        rw [sections] at single
        cases single
    obtain ⟨first, others, rest⟩ := List.exists_cons_of_ne_nil (sections_ne_nil cs)
    rw [sections_cons plain rest] at single
    cases single
    have behind : IsSection cs := by
      refine ⟨rest, fun colon => last ?_⟩
      rw [List.getLast?_cons, colon]
      rfl
    rw [List.cons_append]
    refine sections_cons (fun colon head => ?_) (ih behind)
    cases cs with
    | nil => exact last (congrArg some colon)
    | cons d cs => exact plain colon head

/-- What stands behind a body is part of it, if it could be inside. -/
theorem bodyOf_append {cs more : List Char} (nonempty : cs ≠ []) (whole : bodyOf cs = cs)
    (inside : ∀ c ∈ more, isBodyChar c) : bodyOf (cs ++ more) = cs ++ more := by
  have grown {ds : List Char} (h : ds.takeWhile isBodyChar = ds) :
      (ds ++ more).takeWhile isBodyChar = ds ++ more :=
    List.takeWhile_eq_self_iff.2
      (List.forall_mem_append.2 ⟨List.takeWhile_eq_self_iff.1 h, inside⟩)
  obtain ⟨c, cs, rfl⟩ := List.exists_cons_of_ne_nil nonempty
  rw [bodyOf] at whole
  rw [List.cons_append, bodyOf]
  split at whole
  · rename_i signed
    rw [if_pos signed, grown (List.cons.inj whole).2]
  · rename_i unsigned
    rw [if_neg unsigned]
    exact grown whole

theorem modifier_null (first second : List Char) :
    modifier [first, second, "NULL".toList] = .ok true := by
  have same : sameWord "NULL".toList "null".toList = true := by decide
  rw [modifier, if_pos same]

/-- What a body of at most three pieces declares. -/
theorem ofBody_of_sections {body name : List Char} {more : List (List Char)} {nullok : Bool}
    (split : sections body = name :: more) (few : more.length ≤ 2) (named : name ≠ [])
    (modified : modifier (name :: more) = .ok nullok)
    (key : ∀ n, ParamKey.read name = .named n → ParamKey.isSigned name = false) :
    ofBody body = .ok { key := .read name
                        typeName := ((name :: more)[1]?.bind nonempty?).map String.ofList
                        descr := none
                        nullok
                        attached := false } := by
  have nonempty : body ≠ [] := by
    rintro rfl
    rw [sections] at split
    exact named (List.cons.inj split).1.symm
  have short : ¬ 3 < (name :: more).length := by
    rw [List.length_cons]
    omega
  unfold ofBody
  rw [if_neg (by simpa using nonempty), split]
  dsimp only
  rw [modified]
  change (if 3 < (name :: more).length then _ else _) = _
  rw [if_neg short]
  change (if name.isEmpty = true then _ else _) = _
  rw [if_neg (by simpa using named)]
  dsimp only [List.headD_cons]
  cases read : ParamKey.read name with
  | offset n => rfl
  | named n =>
    change (if ParamKey.isSigned name = true then _ else _) = _
    rw [key n read]
    rfl

/-- Behind the mark `##`, a whole body is one token. -/
theorem spells_body {d : Dialect} {body : List Char} {p : Placeholder} (nonempty : body ≠ [])
    (whole : bodyOf body = body) (read : ofBody body = .ok p) :
    Spells d ('#' :: '#' :: body) [⟨.param p, '#' :: '#' :: body⟩] := by
  have scanned : Placeholder.scan body = (.param p, body.length) := by
    obtain ⟨c, cs, rfl⟩ := List.exists_cons_of_ne_nil nonempty
    have opens : isBodyChar c ∨ c = '+' ∨ c = '-' := by
      rw [bodyOf] at whole
      split at whole
      · rename_i signed
        exact .inr (by simpa using signed)
      · exact .inl (List.takeWhile_eq_self_iff.1 whole c List.mem_cons_self)
    have other {k : Char} (hk : isBodyChar k = false) (plus : k ≠ '+') (minus : k ≠ '-') : c ≠ k := by
      rintro rfl
      simp [hk, plus, minus] at opens
    have noBlank : (c :: cs).takeWhile (fun c => c == ' ' || c == '\t') = [] := by
      simp [other (k := ' ') (by decide) (by decide) (by decide),
        other (k := '\t') (by decide) (by decide) (by decide)]
    unfold Placeholder.scan
    rw [noBlank]
    dsimp only [List.length_nil, List.drop_zero]
    split
    · rename_i comment
      cases comment
      exact absurd rfl (other (k := '/') (by decide) (by decide) (by decide))
    · rw [whole, read]
      rfl
  refine spells_token rfl (by simp [commentLead]) ?_ (by simp) (by simp)
  have hscan : Token.scan d.lexicon 0 '#' ('#' :: body) =
      ((Placeholder.scan body).1, (Placeholder.scan body).2 + 1) := by
    simp [Token.scan, commentLead]
  rw [hscan, scanned]
  rfl

/-! ## Comments -/

/-- The text, between the marks of a comment, is all of the comment: comments inside it are whole. -/
def IsContent (cs : List Char) : Prop :=
  commentBody 0 (cs ++ ['*', '/']) = some (cs, cs.length + 2)

instance (cs : List Char) : Decidable (IsContent cs) := inferInstanceAs (Decidable (_ = _))

/-- A comment behind the mark `##` is one token with it. -/
theorem spells_comment {d : Dialect} {content : List Char} {p : Placeholder}
    (whole : IsContent content) (read : ofComment content false = .ok p) :
    Spells d ('#' :: '#' :: ' ' :: '/' :: '*' :: (content ++ ['*', '/']))
      [⟨.param p, '#' :: '#' :: ' ' :: '/' :: '*' :: (content ++ ['*', '/'])⟩] := by
  have scanned : Placeholder.scan (' ' :: '/' :: '*' :: (content ++ ['*', '/'])) =
      (.param p, content.length + 5) := by
    have body : commentBody 0 (content ++ ['*', '/']) = _ := whole
    have blanks : ((' ' :: '/' :: '*' :: (content ++ ['*', '/'])).takeWhile
        fun c => c == ' ' || c == '\t').length = 1 := rfl
    simp only [Placeholder.scan, blanks, List.drop_succ_cons, List.drop_zero, body, read]
    exact congrArg (Prod.mk _) (by omega)
  refine spells_token rfl (by simp [commentLead]) ?_ (by simp) (by simp)
  have hscan : Token.scan d.lexicon 0 '#' ('#' :: ' ' :: '/' :: '*' :: (content ++ ['*', '/'])) =
      ((Placeholder.scan (' ' :: '/' :: '*' :: (content ++ ['*', '/']))).1,
        (Placeholder.scan (' ' :: '/' :: '*' :: (content ++ ['*', '/']))).2 + 1) := by
    simp [Token.scan, commentLead]
  rw [hscan, scanned]
  simp

/-- An attribute: its name, its value as written, and the value meant. -/
structure Attribute where
  key : List Char
  text : List Char
  value : List Char

namespace Attribute

/-- In front of a blank or the end, the attribute is read as its value. -/
structure Reads (a : Attribute) : Prop where
  key_nonempty : a.key ≠ []
  key_plain : ∀ c ∈ a.key, c ≠ ':' ∧ isBlank c = false
  text_nonempty : a.text ≠ []
  trimmed : Trimmed a.text
  value : ∀ rest, (∀ c, rest.head? = some c → isBlank c) →
    attributeValue (a.text ++ rest) = .ok (a.value, a.text.length)

/-- A value between quotes. -/
theorem Reads.quoted {key : List Char} (nonempty : key ≠ [])
    (plain : ∀ c ∈ key, c ≠ ':' ∧ isBlank c = false) (value : List Char) :
    Reads ⟨key, Dialect.delimited '"' value, value⟩ where
  key_nonempty := nonempty
  key_plain := plain
  text_nonempty := by simp [Dialect.delimited]
  trimmed := notLast_concat (by decide) _
  value rest blank := by
    have head : rest.head? ≠ some '"' := fun quote => absurd (blank _ quote) (by decide)
    have body := quotedBody_flatMap (escaped_delimited '"') value head
    have text : Dialect.delimited '"' value ++ rest =
        '"' :: ((value.flatMap fun c => if c = '"' then ['"', '"'] else [c]) ++ '"' :: rest) := by
      simp [Dialect.delimited]
    rw [text, attributeValue, body]
    simp [Dialect.delimited]

/-- A value without blanks that does not begin with a quote. -/
theorem Reads.bare {key : List Char} (nonempty : key ≠ [])
    (plain : ∀ c ∈ key, c ≠ ':' ∧ isBlank c = false) {value : List Char} (something : value ≠ [])
    (solid : ∀ c ∈ value, isBlank c = false) (unquoted : value.head? ≠ some '"') :
    Reads ⟨key, value, value⟩ where
  key_nonempty := nonempty
  key_plain := plain
  text_nonempty := something
  trimmed := notLast_of_forall solid
  value rest blank := by
    have run : (value ++ rest).takeWhile (fun c => !isBlank c) = value := by
      rw [List.takeWhile_append_of_pos (by simpa using solid)]
      cases rest with
      | nil => simp
      | cons c rest => simp [blank c rfl]
    obtain ⟨c, cs, rfl⟩ := List.exists_cons_of_ne_nil something
    have quote : c ≠ '"' := by simpa using unquoted
    rw [attributeValue.eq_2 _ (by simpa using quote), run]

/-- The text of attributes, each behind a blank. -/
def textOf (as : List Attribute) : List Char := as.flatMap fun a => ' ' :: (a.key ++ ':' :: a.text)

theorem trimStart_textOf {a : Attribute} (h : a.Reads) (as : List Attribute) (more : List Char) :
    trimStart (textOf (a :: as) ++ more) = a.key ++ ':' :: (a.text ++ (textOf as ++ more)) := by
  obtain ⟨c, cs, key⟩ := List.exists_cons_of_ne_nil h.key_nonempty
  have solid : isBlank c = false := (h.key_plain c (key ▸ List.mem_cons_self)).2
  have blank : isBlank ' ' = true := by decide
  simp [trimStart, textOf, key, solid, blank]

/-- One attribute is taken off. -/
theorem readAttributes_step {found : Attributes} {cs afterColon value : List Char} {n : Nat}
    (back : cs.dropWhile (· != ':') = ':' :: afterColon)
    (valued : attributeValue afterColon = .ok (value, n)) :
    readAttributes found cs =
      readAttributes (found.put (trim (cs.takeWhile (· != ':'))) value)
        (trimStart (afterColon.drop n)) := by
  cases cs with
  | nil => cases back
  | cons c rest =>
    rw [readAttributes]
    split
    · rename_i none
      rw [none] at back
      cases back
    · rename_i same
      rw [back] at same
      cases same
      rw [valued]

/-- Behind the first attribute, reading goes on with the others. -/
theorem readAttributes_cons {a : Attribute} (h : a.Reads) (found : Attributes) {rest : List Char}
    (blank : ∀ c, rest.head? = some c → isBlank c) :
    readAttributes found (a.key ++ ':' :: (a.text ++ rest)) =
      readAttributes (found.put a.key a.value) (trimStart rest) := by
  have front : (a.key ++ ':' :: (a.text ++ rest)).takeWhile (· != ':') = a.key := by
    rw [List.takeWhile_append_of_pos (by simpa using fun c hc => (h.key_plain c hc).1)]
    simp
  have back : (a.key ++ ':' :: (a.text ++ rest)).dropWhile (· != ':') = ':' :: (a.text ++ rest) := by
    rw [List.dropWhile_append_of_pos (by simpa using fun c hc => (h.key_plain c hc).1)]
    simp
  have bare : trim a.key = a.key := by
    obtain ⟨c, cs, key⟩ := List.exists_cons_of_ne_nil h.key_nonempty
    have start : trimStart a.key = a.key := by
      have solid : isBlank c = false := (h.key_plain c (key ▸ List.mem_cons_self)).2
      rw [key, trimStart, List.dropWhile_cons_of_neg (by simp [solid])]
    rw [trim, start, trimEnd_of_trimmed (notLast_of_forall fun c hc => (h.key_plain c hc).2)]
  rw [readAttributes_step back (h.value rest blank), front, bare, List.drop_left]

theorem readAttributes_textOf {as : List Attribute} (h : ∀ a ∈ as, a.Reads) (found : Attributes) :
    readAttributes found (trimStart (textOf as)) =
      .ok (as.foldl (fun found a => found.put a.key a.value) found) := by
  induction as generalizing found with
  | nil =>
    have empty : trimStart (textOf []) = [] := rfl
    rw [empty, readAttributes]
    rfl
  | cons a as ih =>
    rw [List.forall_mem_cons] at h
    have text := trimStart_textOf h.1 as []
    rw [List.append_nil, List.append_nil] at text
    rw [text, readAttributes_cons h.1, ih h.2]
    · rfl
    · cases as with
      | nil =>
        intro c hc
        cases hc
      | cons a as =>
        intro c hc
        cases hc
        decide

theorem trimmed_textOf {as : List Attribute} (h : ∀ a ∈ as, a.Reads) : Trimmed (textOf as) := by
  induction as with
  | nil => exact notLast_nil
  | cons a as ih =>
    rw [List.forall_mem_cons] at h
    have text : textOf (a :: as) = (' ' :: a.key ++ [':']) ++ (a.text ++ textOf as) := by
      simp [textOf]
    rw [text]
    exact (h.1.trimmed.append (ih h.2)).append_of_ne_nil (by simp [h.1.text_nonempty]) _

/-- The blanks around attributes have no part in them. -/
theorem trim_textOf {as : List Attribute} (h : ∀ a ∈ as, a.Reads) :
    trim (textOf as ++ [' ']) = trimStart (textOf as) := by
  cases as with
  | nil => decide
  | cons a as =>
    have trimmed := trimmed_textOf h
    rw [List.forall_mem_cons] at h
    have text : textOf (a :: as) = ' ' :: trimStart (textOf (a :: as)) := by
      have start := trimStart_textOf h.1 as []
      rw [List.append_nil, List.append_nil] at start
      rw [start]
      simp [textOf]
    have kept : Trimmed (trimStart (textOf (a :: as))) := by
      intro c hc
      refine trimmed c ?_
      rw [text, List.getLast?_cons, hc]
      rfl
    have start : trimStart (textOf (a :: as) ++ [' ']) = trimStart (textOf (a :: as)) ++ [' '] := by
      have bare := trimStart_textOf h.1 as []
      rw [List.append_nil, List.append_nil] at bare
      rw [trimStart_textOf h.1, bare]
      simp
    rw [trim, start, trimEnd_of_allBlank (by simp [AllBlank]; decide), trimEnd_of_trimmed kept]

end Attribute

end Placeholder

end BoundSql
