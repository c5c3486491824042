import BoundSql.Proofs.Render.Tidy
import BoundSql.Proofs.RoundTrip.DataType

/-!
# Plain expressions

The expressions that are written and read without regard to queries, parameters and the many ways of
writing a name, and the words that their names, literals and types are.
-/

namespace BoundSql

open Text Token Parse Grammar

/-- A name of ASCII characters that is written as it is. -/
structure RenderContext.PlainName (r : RenderContext) (s : String) : Prop where
  ascii : ∀ c ∈ s.toList, c.toNat < asciiLimit
  unforced : r.settings.forceQuotes = false
  unquoted : r.dialect.needsQuotes r.settings.caseSensitive s = false

theorem Keyword.isReserved_all :
    (Keyword.all.all fun k => !k.isReserved || Dialect.reservedWords.contains k.spelling) = true := by
  decide +kernel

/-- The keywords that are reserved need delimiters as names. -/
theorem Keyword.mem_reservedWords {k : Keyword} (h : k.isReserved) :
    Dialect.reservedWords.contains k.spelling = true := by
  have hk := List.all_eq_true.1 Keyword.isReserved_all k k.mem_all
  rw [h] at hk
  simpa using hk

/-- A keyword that can be written as a name is not reserved. -/
theorem Keyword.isReserved_of_ofWord? {s : String} {k : Keyword}
    (h : Dialect.isReservedSqlWord s = false) (hk : Keyword.ofWord? s.toList = some k) :
    k.isReserved = false := by
  rw [Bool.eq_false_iff]
  intro hreserved
  have hspelling := List.find?_some hk
  rw [beq_iff_eq, ofList_upper] at hspelling
  rw [Dialect.isReservedSqlWord, ← hspelling, Keyword.mem_reservedWords hreserved] at h
  cases h

/-- A name that needs no delimiters is not reserved. -/
theorem Dialect.isReservedSqlWord_of_needsQuotes {d : Dialect} {caseSensitive : Bool} {s : String}
    (h : d.needsQuotes caseSensitive s = false) : Dialect.isReservedSqlWord s = false := by
  have reserved := (needsQuotes_eq_false h).2.2
  rw [isReservedWord, Bool.or_eq_false_iff] at reserved
  exact reserved.1

/-- The word of a name that is not reserved is a name. -/
theorem Word.isName_ofName {s : String} (h : Dialect.isReservedSqlWord s = false) :
    (Word.ofName s.toList).IsName := by
  rw [IsName, ofName, Token.word]
  split
  · rename_i k hk
    exact .inr ⟨k, rfl, Keyword.isReserved_of_ofWord? h hk⟩
  · exact .inl rfl

/-- An ASCII character of a word that is no digit can begin a name. -/
theorem isNameStart_of_ascii {c : Char} (hc : c.toNat < asciiLimit) (hword : isWordChar c)
    (hdigit : c.isDigit = false) : isNameStart c := by
  simp only [isWordChar, isAlphanumeric, isNumeric, if_pos hc, hdigit, Bool.or_false] at hword
  exact hword

namespace RenderContext.PlainName

variable {r : RenderContext} {s : String}

theorem isWordChar_all (h : r.PlainName s) : ∀ c ∈ s.toList, isWordChar c :=
  (Dialect.needsQuotes_eq_false h.unquoted).2.1

theorem isReservedSqlWord (h : r.PlainName s) : Dialect.isReservedSqlWord s = false :=
  Dialect.isReservedSqlWord_of_needsQuotes h.unquoted

theorem isPlainName (h : r.PlainName s) : IsPlainName s.toList := by
  obtain ⟨⟨c, cs, hs, digit⟩, chars, -⟩ := Dialect.needsQuotes_eq_false h.unquoted
  have ascii := h.ascii
  rw [hs] at chars ascii ⊢
  refine ⟨isNameStart_of_ascii (ascii c (by simp)) (chars c (by simp)) digit, fun x hx => ?_⟩
  simp [isNameChar, chars x (List.mem_cons_of_mem _ hx)]

/-- Text of letters, digits and underscores stands between no delimiters. -/
theorem between_eq_false (h : r.PlainName s) {quote : Char} (hquote : isWordChar quote = false) :
    Dialect.between quote s.toList = false := by
  rw [Bool.eq_false_iff]
  intro hbetween
  simp only [Dialect.between, Bool.and_eq_true, beq_iff_eq] at hbetween
  have hmem := List.mem_of_mem_head? hbetween.1.2
  rw [h.isWordChar_all quote hmem] at hquote
  cases hquote

/-- A plain name is written as it is. -/
theorem writeName (h : r.PlainName s) : r.dialect.writeName r.quoting s = s := by
  have hquote := h.between_eq_false (show isWordChar '"' = false by decide)
  have hbacktick := h.between_eq_false (show isWordChar '\x60' = false by decide)
  have hdelimited : r.dialect.isDelimited s = false := by
    simp [Dialect.isDelimited, hquote, hbacktick]
  simp [Dialect.writeName, Dialect.bareName?, Dialect.stripped?, hquote, hbacktick,
    Dialect.quoteWith, hdelimited, quoting, h.unforced, h.unquoted]

/-- The word of a plain name is a name. -/
theorem isName (h : r.PlainName s) : (Word.ofName s.toList).IsName :=
  Word.isName_ofName h.isReservedSqlWord

end RenderContext.PlainName

namespace Literal

/-- The literals that are one word: integers that are not negative, strings, blobs and truth
values. -/
def Plain : Literal → Prop
  | integer n => 0 ≤ n.toInt
  | string _ | blob _ | boolean _ => True
  | float _ | null | columnDefault => False

/-- A plain literal is one word that means it. -/
theorem Plain.spells {l : Literal} (h : l.Plain) :
    ∃ w, Spells .standard (l.sql .standard).toList [w] ∧ literal? w.kind = some l := by
  cases l with
  | integer n => exact ⟨_, spells_integer h, rfl⟩
  | string text => exact ⟨_, spells_string _ text, rfl⟩
  | blob bytes => exact ⟨_, spells_blob _ bytes, rfl⟩
  | boolean b =>
    cases b
    · exact ⟨_, spells_keyword _ .FALSE, rfl⟩
    · exact ⟨_, spells_keyword _ .TRUE, rfl⟩
  | float | null | columnDefault => exact h.elim

end Literal

namespace DataType

/-- INTEGER, TEXT and VARCHAR with a length. -/
def Plain : DataType → Prop
  | integer | text | varchar (some _) => True
  | _ => False

/-- A keyword that names a type, with its arguments. -/
theorem spells_keywordType (k : Keyword) (args : List UInt32) {t : DataType}
    (upper : k.spelling.toUpper = k.spelling) (known : known? k.spelling args = some t) :
    ∃ ws, Spells .standard (withArgs k.spelling args).toList ws ∧
      ∀ w : Word, w.kind = .punct .rightParen → Takes dataType ws t w := by
  have text : (Word.key k).text = k.spelling := String.ofList_toList
  refine ⟨_, spells_withArgs (spells_keyword _ k) args, fun w hw => ?_⟩
  have alone : ∀ s ∈ (none : Option String), IsSecond s := by simp
  have taken := @takes_dataType (.key k) w none rfl alone args ⟨by simp [hw], by simp [hw]⟩
  rwa [fullName, text, ofParts_of_known? upper known] at taken

/-- A plain type is read as it is written. -/
theorem Plain.spells {t : DataType} (h : t.Plain) : ∃ ws,
    Spells .standard t.sql.toList ws ∧
      ∀ w : Word, w.kind = .punct .rightParen → Takes dataType ws t w := by
  cases t with
  | integer => exact spells_keywordType .INTEGER [] (by decide +kernel) rfl
  | text => exact spells_keywordType .TEXT [] (by decide +kernel) rfl
  | varchar n =>
    cases n with
    | none => exact h.elim
    | some n =>
      rw [sql, withLength_eq]
      exact spells_keywordType .VARCHAR [n] (by decide +kernel) rfl
  | _ => exact h.elim

end DataType

/-- A plain expression, the expressions below it left aside. -/
def Expr.PlainNode (r : RenderContext) : Expr → Prop
  | literal l => l.Plain
  | name i => i.parts ≠ [] ∧ ∀ s ∈ i.parts, r.PlainName s
  | call function _ _ => r.PlainName function
  | operation op operands => r.checkOperator op = .ok () ∧ op.acceptsOperands operands.length
  | cases _ arms _ => arms ≠ []
  | cast _ type => type.Plain
  | param _ | subquery _ | wildcard _ => False

/-- Built from plain literals, names, calls and types and from operations, CASE and CAST. -/
def Expr.Plain (r : RenderContext) (e : Expr) : Prop := e.Everywhere (PlainNode r) fun _ => False

end BoundSql
