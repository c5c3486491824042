import BoundSql.Proofs.Render.Delimited
import BoundSql.Proofs.RoundTrip.Plain
import BoundSql.Proofs.Token.Lexeme

/-!
# Names read back

A name is written as one identifier, whatever it holds, but for two oversights. A name is left
without delimiters if its characters may stand *inside* an identifier, so that one that begins with
a number other than an ASCII digit is no identifier (`Dialect.Exposes`). And `quoteIdentifier` takes
a name for delimited by its first and its last character, whatever stands between them
(`Dialect.LetsOut`); `writeName` takes the delimiters off first and is not affected.
-/

namespace BoundSql

open Text Token

/-- A text is one token and the end of the input if it is one word. -/
theorem exists_tokens_iff {d : Dialect} {text : List Char} {P : Word → Prop} :
    (∃ t e, (Lexer.ofText d.lexicon text).tokens = [t, e] ∧ e.kind = .eof ∧ P t.toWord) ↔
      ∃ w, d.words text = [w] ∧ P w := by
  have all := Lexer.toWord_tokens_ofText d.lexicon text .start
  constructor
  · rintro ⟨t, e, tokens, -, holds⟩
    rw [tokens] at all
    have front : [t.toWord] = d.words text := List.append_inj_left' all rfl
    exact ⟨_, front.symm, holds⟩
  · rintro ⟨w, words, holds⟩
    rw [Dialect.words] at words
    rw [words, List.singleton_append, List.map_eq_cons_iff] at all
    obtain ⟨t, ts, tokens, rfl, rest⟩ := all
    obtain ⟨e, more, rfl, eof, rest⟩ := List.map_eq_cons_iff.1 rest
    rw [List.map_eq_nil_iff.1 rest] at tokens
    exact ⟨t, e, tokens, congrArg Word.kind eof, holds⟩

/-- The grammar takes a token for a name, as it is written, exactly if its word is one. -/
theorem Parse.run_name_iff {what : String} {t e : Token} :
    (Parse.name what).run (Cursor.ofTokens [t, e]) = .ok (t.text, Cursor.ofTokens [e]) ↔
      t.toWord.IsName := by
  rw [Word.IsName, Token.toWord_kind, Token.toWord_text, Parse.name, Parse.run_current_bind]
  dsimp only [Cursor.ofTokens]
  constructor
  · intro run
    split at run
    · rename_i text kind
      cases run
      exact .inl kind
    · rename_i k kind
      split at run
      · cases run
      · rename_i free
        exact .inr ⟨k, kind, by simpa using free⟩
    · cases run
  · rintro (kind | ⟨k, kind, free⟩)
    · rw [kind]
      rfl
    · rw [kind]
      dsimp only
      rw [free]
      rfl

namespace Dialect

variable {d : Dialect} {rule : QuotingRule} {name : String}

/-- The name that a text stands for: what stands between its delimiters, or else the text. -/
def nameOf (text : String) : String :=
  match bareName? text.toList with
  | some bare => String.ofList bare
  | none => text

/-- The name is written without delimiters, unless it has some. -/
def LeavesBare (d : Dialect) (rule : QuotingRule) (name : String) : Prop :=
  rule.always = false ∧ d.needsQuotes rule.caseSensitive name = false

/-- The name is written without delimiters although it begins with a number, which begins no
identifier. -/
def Exposes (d : Dialect) (rule : QuotingRule) (name : String) : Prop :=
  d.LeavesBare rule name ∧ ¬IsPlainName name.toList

/-- The text is one delimited identifier, with nothing but blanks and comments behind it. -/
def IsOneDelimited (d : Dialect) (text : List Char) : Prop :=
  ∃ quote name rest, IsNameQuote d quote ∧ text = delimited quote name ++ rest ∧
    rest.head? ≠ some quote ∧ d.lexicon.ahead rest = []

/-- The name is taken for delimited although what its first delimiter opens does not end it. -/
def LetsOut (d : Dialect) (name : String) : Prop :=
  d.isDelimited name ∧ ¬d.IsOneDelimited name.toList

theorem words_eq_nil_iff {rest : List Char} : d.words rest = [] ↔ d.lexicon.ahead rest = [] := by
  refine ⟨fun h => ?_, Lexicon.words_of_ahead_nil⟩
  cases ahead : d.lexicon.ahead rest with
  | nil => rfl
  | cons c cs =>
    rw [words, Lexicon.words_of_ahead_cons ahead] at h
    cases h

/-- A name between delimiters is one word, an identifier. -/
theorem words_eq_delimited {quote : Char} (h : IsNameQuote d quote) (name : List Char) :
    d.words (delimited quote name) = [.ofName (delimited quote name)] :=
  (spellsName_delimited h name).spells.words_eq

theorem isName_delimited {quote : Char} (h : IsNameQuote d quote) (name : List Char) :
    (Word.ofName (delimited quote name)).IsName :=
  .inl (h.word _)

/-- What begins with a delimiter is one word that is a name exactly if the identifier that the
delimiter opens is all of it. -/
theorem isOneDelimited_iff {quote : Char} {cs : List Char} (h : IsNameQuote d quote) :
    (∃ w, d.words (quote :: cs) = [w] ∧ w.IsName) ↔ d.IsOneDelimited (quote :: cs) := by
  constructor
  · rintro ⟨w, words, isName⟩
    rw [Dialect.words, Lexicon.words_of_ahead_cons (h.ahead cs), h.scan, Lexicon.countBare,
      if_neg (h.ne_bare _)] at words
    obtain ⟨rfl, rest⟩ := List.cons.inj words
    cases body : quotedBody quote false cs with
    | none =>
      rw [scanDelimited, body] at isName
      rcases isName with kind | ⟨k, kind, -⟩ <;> cases kind
    | some found =>
      obtain ⟨name, n⟩ := found
      rw [scanDelimited, body] at rest
      refine ⟨quote, name, cs.drop n, h, ?_, ?_, words_eq_nil_iff.1 rest⟩
      · rw [← take_quotedBody body, List.cons_append, List.take_append_drop]
      · exact head?_drop_quotedBody body
  · rintro ⟨quote', name, rest, h', text, apart, gap⟩
    refine ⟨_, ?_, isName_delimited h' name⟩
    rw [text, words_delimited h' name apart, words_eq_nil_iff.2 gap]

namespace LeavesBare

/-- What is written without delimiters is one word, a name, exactly if it begins like one. -/
theorem words_iff (h : d.LeavesBare rule name) :
    (∃ w, d.words name.toList = [w] ∧ w.IsName) ↔ IsPlainName name.toList := by
  obtain ⟨⟨c, cs, spelled, digit⟩, chars, -⟩ := needsQuotes_eq_false h.2
  constructor
  · rintro ⟨w, words, isName⟩
    rw [spelled] at words chars ⊢
    have first : isWordChar c := chars c List.mem_cons_self
    by_cases start : isNameStart c
    · exact ⟨start, fun x hx => by simp [isNameChar, chars x (List.mem_cons_of_mem _ hx)]⟩
    · -- Any other character of a word is a symbol, which is no name.
      have solid : d.lexicon.ahead (c :: cs) = c :: cs :=
        Lexicon.ahead_cons (isBlank_of_isWordChar first) fun more => by
          simp [commentLead_of_isWordChar first]
      have symbol : scan d.lexicon 0 c cs = (.symbol c, 0) :=
        scan_symbol rfl first (Bool.eq_false_iff.2 start) digit
      rw [Dialect.words, Lexicon.words_of_ahead_cons solid, symbol] at words
      obtain ⟨rfl, -⟩ := List.cons.inj words
      rcases isName with kind | ⟨k, kind, -⟩ <;> cases kind
  · intro plain
    exact ⟨_, (SpellsName.of_isPlainName plain).spells.words_eq,
      Word.isName_ofName (isReservedSqlWord_of_needsQuotes h.2)⟩

theorem bareName?_eq_none (h : d.LeavesBare rule name) : bareName? name.toList = none := by
  refine Text.bareName?_eq_none (List.any_eq_false.2 fun c hc quote => ?_)
  have char := (needsQuotes_eq_false h.2).2.1 c hc
  simp only [Bool.or_eq_true, decide_eq_true_eq] at quote
  rcases quote with rfl | rfl <;> exact absurd char (by decide)

theorem isDelimited_eq_false (h : d.LeavesBare rule name) : d.isDelimited name = false :=
  Bool.eq_false_iff.2 fun delimited => bareName?_ne_none delimited h.bareName?_eq_none

end LeavesBare

/-! ## Names as the renderer writes them -/

theorem quoteWith_of_leavesBare {quote : Char} (h : d.LeavesBare rule name) :
    d.quoteWith quote rule name = name := by
  simp [quoteWith, h.1, h.2]

/-- A name that is neither left bare nor delimited already is put between delimiters. -/
theorem quoteWith_of_not_leavesBare {quote : Char} (h : ¬d.LeavesBare rule name)
    (undelimited : d.isDelimited name = false) :
    d.quoteWith quote rule name = String.ofList (delimited quote name.toList) := by
  rw [quoteWith, undelimited, if_neg Bool.false_ne_true, if_pos]
  simpa [LeavesBare, not_and, Bool.or_eq_true, or_iff_not_imp_left] using h

theorem writeName_of_leavesBare (h : d.LeavesBare rule name) : d.writeName rule name = name := by
  rw [writeName, h.bareName?_eq_none]
  exact quoteWith_of_leavesBare h

theorem writeName_of_not_leavesBare (h : ¬d.LeavesBare rule name) : d.writeName rule name =
    String.ofList (delimited d.identifierQuote (nameOf name).toList) := by
  rw [writeName, nameOf]
  cases bare : bareName? name.toList with
  | some text => rw [String.toList_ofList]
  | none =>
    have opened : d.isDelimited name = false :=
      Bool.eq_false_iff.2 fun closed => bareName?_ne_none closed bare
    exact quoteWith_of_not_leavesBare h opened

theorem nameOf_delimited (d : Dialect) (name : String) :
    nameOf (String.ofList (delimited d.identifierQuote name.toList)) = name := by
  have quote : d.identifierQuote = '"' ∨ d.identifierQuote = '\x60' :=
    d.identifierQuote_cases.imp And.left And.left
  rw [nameOf, String.toList_ofList, bareName?_delimited quote]
  exact String.ofList_toList

/-- A name as it is written is one token that the grammar takes for a name, and inside the
delimiters of both stands the same, exactly if the rule does not leave a name bare that begins with
a number. -/
theorem writeName_read (d : Dialect) (rule : QuotingRule) (name what : String) :
    (∃ t e, (Lexer.ofText d.lexicon (d.writeName rule name).toList).tokens = [t, e] ∧
      e.kind = .eof ∧
      (Parse.name what).run (Cursor.ofTokens [t, e]) = .ok (t.text, Cursor.ofTokens [e]) ∧
      nameOf t.text = nameOf name) ↔ ¬d.Exposes rule name := by
  simp only [Parse.run_name_iff]
  refine (exists_tokens_iff (P := fun w => w.IsName ∧ nameOf w.text = nameOf name)).trans ?_
  by_cases bare : d.LeavesBare rule name
  · rw [writeName_of_leavesBare bare]
    have exposed : d.Exposes rule name ↔ ¬IsPlainName name.toList := and_iff_right bare
    rw [exposed, not_not, ← bare.words_iff]
    constructor
    · rintro ⟨w, words, isName, -⟩
      exact ⟨w, words, isName⟩
    · intro read
      have plain := (SpellsName.of_isPlainName (d := d) (bare.words_iff.1 read)).spells.words_eq
      obtain ⟨w, words, isName⟩ := read
      obtain rfl : Word.ofName name.toList = w := (List.cons.inj (plain.symm.trans words)).1
      exact ⟨_, words, isName, by rw [Word.text, Word.ofName, String.ofList_toList]⟩
  · have hidden : ¬d.Exposes rule name := fun exposed => bare exposed.1
    have isName := isName_delimited d.identifierQuote_cases (nameOf name).toList
    refine iff_of_true ⟨_, ?_, isName, ?_⟩ hidden
    · rw [writeName_of_not_leavesBare bare, String.toList_ofList]
      exact words_eq_delimited d.identifierQuote_cases _
    · exact nameOf_delimited d (nameOf name)

/-- A name between two quotes is one token, a name, exactly if the second quote closes the first. -/
theorem words_of_isDelimited (h : d.doubleQuotedStrings = false) (closed : d.isDelimited name) :
    (∃ w, d.words name.toList = [w] ∧ w.IsName) ↔ ¬d.LetsOut name := by
  obtain ⟨quote, delimiter, cs, spelled⟩ : ∃ quote, IsNameQuote d quote ∧ ∃ cs,
      name.toList = quote :: cs := by
    simp only [isDelimited, between, Bool.or_eq_true, Bool.and_eq_true, beq_iff_eq,
      List.head?_eq_some_iff] at closed
    rcases closed with ⟨⟨-, first⟩, -⟩ | ⟨ticks, ⟨-, first⟩, -⟩
    · exact ⟨'"', .inl ⟨rfl, h⟩, first⟩
    · exact ⟨'\x60', .inr ⟨rfl, ticks⟩, first⟩
  rw [LetsOut, and_iff_right closed, not_not, spelled]
  exact isOneDelimited_iff delimiter

theorem isDelimited_delimited (d : Dialect) (name : List Char) :
    d.isDelimited (String.ofList (delimited '"' name)) := by
  simp [isDelimited, between, delimited, List.getLast?_cons]

/-- In a dialect whose identifiers stand between double quotes, a quoted name is one token, an
identifier or a keyword that is not reserved, exactly if the name is neither taken for delimited
without being so nor left bare although it begins with a number. Quoting it again changes
nothing. -/
theorem quoteIdentifier_read {d : Dialect} (h : d.doubleQuotedStrings = false) (rule : QuotingRule)
    (name : String) :
    ((∃ t e, (Lexer.ofText d.lexicon (d.quoteIdentifier rule name).toList).tokens = [t, e] ∧
      e.kind = .eof ∧ t.toWord.IsName) ↔ ¬d.LetsOut name ∧ ¬d.Exposes rule name) ∧
      d.quoteIdentifier rule (d.quoteIdentifier rule name) = d.quoteIdentifier rule name := by
  rw [exists_tokens_iff]
  by_cases closed : d.isDelimited name
  · have same : d.quoteIdentifier rule name = name := by
      rw [quoteIdentifier, quoteWith, if_pos closed]
    have hidden : ¬d.Exposes rule name := by
      rintro ⟨bare, -⟩
      rw [bare.isDelimited_eq_false] at closed
      cases closed
    rw [same, same, and_iff_left hidden]
    exact ⟨words_of_isDelimited h closed, rfl⟩
  · have kept : ¬d.LetsOut name := fun out => closed out.1
    rw [and_iff_right kept]
    by_cases bare : d.LeavesBare rule name
    · have same : d.quoteIdentifier rule name = name := quoteWith_of_leavesBare bare
      have exposed : d.Exposes rule name ↔ ¬IsPlainName name.toList := and_iff_right bare
      rw [same, same, exposed, not_not]
      exact ⟨bare.words_iff, rfl⟩
    · have hidden : ¬d.Exposes rule name := fun exposed => bare exposed.1
      have quoted : d.quoteIdentifier rule name = String.ofList (delimited '"' name.toList) :=
        quoteWith_of_not_leavesBare bare (Bool.eq_false_iff.2 closed)
      refine ⟨iff_of_true ⟨_, ?_, isName_delimited (.inl ⟨rfl, h⟩) name.toList⟩ hidden, ?_⟩
      · rw [quoted, String.toList_ofList]
        exact words_eq_delimited (.inl ⟨rfl, h⟩) _
      · rw [quoted, quoteIdentifier, quoteWith, if_pos (isDelimited_delimited d _)]

/-- A name that would end the identifier and go on with a statement of its own. -/
theorem quoteIdentifier_read_hostile : standard.doubleQuotedStrings = false ∧
    ∃ t e, (Lexer.ofText standard.lexicon
        (standard.quoteIdentifier ⟨false, false⟩ "a\"; DROP TABLE b --").toList).tokens = [t, e] ∧
      e.kind = .eof ∧ t.toWord.IsName := by
  have undelimited : standard.isDelimited "a\"; DROP TABLE b --" = false := by decide
  have needs : standard.needsQuotes false "a\"; DROP TABLE b --" = true := by decide
  have kept : ¬standard.LetsOut "a\"; DROP TABLE b --" := fun out => by
    unfold LetsOut at out
    rw [undelimited] at out
    cases out.1
  have hidden : ¬standard.Exposes ⟨false, false⟩ "a\"; DROP TABLE b --" := fun exposed => by
    have bare := exposed.1.2
    rw [needs] at bare
    cases bare
  exact ⟨rfl, (quoteIdentifier_read rfl ⟨false, false⟩ _).1.2 ⟨kept, hidden⟩⟩

end Dialect

end BoundSql
