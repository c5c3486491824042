import BoundSql.Proofs.Token.Fixed
import BoundSql.Proofs.Token.Reread

/-!
# Tokens and their own text

A name or keyword that was read somewhere in a text is read from its own characters alone:
`Lexer.lawful_of_mem_tokens`. What a tilde means depends on the dialect only.
-/

namespace BoundSql

open Text Token

namespace Token

/-- Whether the token is a name or a keyword. -/
def isNameKind : TokenKind → Bool
  | .identifier _ | .keyword _ => true
  | _ => false

variable {lx : Lexicon} {n : Nat} {c : Char} {cs : List Char}

theorem isNameKind_toKind (p : Except LexicalError Placeholder) :
    isNameKind (Placeholder.toKind p) = false := by
  cases p <;> rfl

theorem isNameKind_number (cs : List Char) (whole : Bool) :
    isNameKind (number cs whole) = false := by
  unfold number
  split
  · rfl
  · split <;> rfl

theorem isNameKind_scanHost (n : Nat) (sign : Char) (cs : List Char) :
    isNameKind (scanHost n sign cs).1 = false := by
  unfold scanHost
  extract_lets name
  split
  · rfl
  · split <;> rfl

theorem isNameKind_scanPunct (lx : Lexicon) (c : Char) (cs : List Char) :
    isNameKind (scanPunct lx c cs).1 = false := by
  unfold scanPunct
  split <;> (try split) <;> rfl

/-- What a name or keyword was read as: a name without delimiters, a system variable or a name
between delimiters. -/
theorem scan_name (h : isNameKind (scan lx n c cs).1) :
    isNameStart c ∧ scan lx n c cs = scanName lx c cs ∨
      c = '@' ∧ cs.head? = some '@' ∧ scan lx n c cs = scanSystem cs ∨
      IsNameQuote lx.dialect c ∧ scan lx n c cs = scanDelimited c cs := by
  have scanned := scanned_scan lx n c cs
  generalize scan lx n c cs = answer at scanned h
  have other (notName : isNameKind answer.1 = false) {p : Prop} : p := by
    rw [notName] at h
    cases h
  cases scanned with
  | name start => exact .inl ⟨start, rfl⟩
  | system sign second => exact .inr (.inl ⟨sign, second, rfl⟩)
  | delimited quote => exact .inr (.inr ⟨quote, rfl⟩)
  | comment | marked => exact other (isNameKind_toKind _)
  | number => exact other (isNameKind_number _ _)
  | host => exact other (isNameKind_scanHost _ _ _)
  | sign => exact other (isNameKind_scanPunct _ _ _)
  | error | delimiter | string | blob => exact other rfl

/-- The signs that match regular expressions. -/
def isMatching : Punct → Bool
  | .regexp | .regexpCi | .notRegexp | .notRegexpCi => true
  | _ => false

/-- A tilde matches regular expressions or negates bits, as the dialect has it. -/
theorem scan_tilde {p : Punct} (h : (scan lx n c cs).1 = .punct p) :
    (isMatching p → lx.dialect.regexpOperators) ∧
      (p = .bitNot → lx.dialect.regexpOperators = false) := by
  rcases scan_cases lx n c cs with content | sign | ⟨-, delimiter⟩
  · rw [h] at content
    cases content
  · rw [sign] at h
    revert h
    unfold scanPunct
    split <;> (try split) <;> simp_all <;> rintro rfl <;> simp [isMatching]
  · rw [delimiter] at h
    cases h
    simp [isMatching]

/-- What a row of name characters consists of. -/
theorem isNameChar_of_mem_take {x : Char} (hx : x ∈ cs.take (nameLength lx cs)) : isNameChar x := by
  induction cs with
  | nil => simp at hx
  | cons c cs ih =>
    unfold nameLength at hx
    split at hx
    · rename_i hc
      rw [List.take_succ_cons] at hx
      rcases List.mem_cons.1 hx with rfl | hx
      · exact (Bool.and_eq_true _ _ ▸ hc).1
      · exact ih hx
    · simp at hx

/-- The text up to a closing quote is the text meant with the quotes in it doubled. -/
theorem take_quotedBody {quote : Char} {text : List Char} {m : Nat}
    (h : quotedBody quote false cs = some (text, m)) :
    quote :: cs.take m = Dialect.delimited quote text := by
  suffices htake : cs.take m =
      (text.flatMap fun c => if c = quote then [quote, quote] else [c]) ++ [quote] by
    rw [htake]
    rfl
  fun_induction quotedBody quote false cs generalizing text m with
  | case1 => cases h
  | case2 =>
    cases h
    simp
  | case3 ds ih =>
    obtain ⟨⟨text, k⟩, hbody, h⟩ := Option.map_eq_some_iff.1 h
    cases h
    simp [ih hbody]
  | case4 =>
    cases h
    simp
  | case5 _ _ escapes => cases escapes
  | case6 _ _ escapes => cases escapes
  | case7 c ds hc _ ih =>
    obtain ⟨⟨text, k⟩, hbody, h⟩ := Option.map_eq_some_iff.1 h
    cases h
    simp [ih hbody, hc]

/-- The text goes on with no second quote. -/
theorem head?_drop_quotedBody {quote : Char} {text : List Char} {m : Nat}
    (h : quotedBody quote false cs = some (text, m)) : (cs.drop m).head? ≠ some quote := by
  fun_induction quotedBody quote false cs generalizing text m with
  | case1 => cases h
  | case2 =>
    cases h
    simp
  | case3 ds ih =>
    obtain ⟨⟨text, k⟩, hbody, h⟩ := Option.map_eq_some_iff.1 h
    cases h
    exact ih hbody
  | case4 d ds hd =>
    cases h
    simpa using hd
  | case5 _ _ escapes => cases escapes
  | case6 _ _ escapes => cases escapes
  | case7 c ds hc _ ih =>
    obtain ⟨⟨text, k⟩, hbody, h⟩ := Option.map_eq_some_iff.1 h
    cases h
    exact ih hbody

end Token

/-- The characters that the name of a system variable consists of. -/
def isSystemChar (c : Char) : Bool := isWordChar c || c == '.'

theorem word_system (name : List Char) :
    word ('@' :: '@' :: name) = .identifier (String.ofList ('@' :: '@' :: name)) := by
  rw [word, Keyword.ofWord?_eq_none (by decide)]

/-- A system variable goes on up to a character that belongs to none. -/
theorem words_system {d : Dialect} {name rest : List Char} (hname : ∀ c ∈ name, isSystemChar c)
    (hrest : ∀ c, rest.head? = some c → isSystemChar c = false) :
    d.words ('@' :: '@' :: (name ++ rest)) = .ofName ('@' :: '@' :: name) :: d.words rest := by
  have htake : (name ++ rest).takeWhile isSystemChar = name := by
    rw [List.takeWhile_append_of_pos hname]
    cases rest with
    | nil => simp
    | cons c rest => simp [hrest c rfl]
  have hscan : scan d.lexicon 0 '@' ('@' :: (name ++ rest)) =
      (word ('@' :: '@' :: name), ('@' :: name).length) := by
    have hsystem : scan d.lexicon 0 '@' ('@' :: (name ++ rest)) =
        scanSystem ('@' :: (name ++ rest)) := rfl
    have hlength : ((name ++ rest).takeWhile fun x => isWordChar x || x == '.') = name := htake
    rw [hsystem, scanSystem, List.tail_cons, hlength, word_system, List.length_cons]
  exact Dialect.words_cons rfl (fun more => by simp [commentLead]) rfl hscan (by simp)

theorem spells_system {d : Dialect} {name : List Char} (hname : ∀ c ∈ name, isSystemChar c) :
    Spells d ('@' :: '@' :: name) [.ofName ('@' :: '@' :: name)] := by
  have free : BreakFree isSystemChar := breakFree_isWordChar.or (by decide)
  exact fun rest hrest => words_system hname fun c hc => free c (hrest.breaks c hc)

/-- How names and keywords are written: as they are, as system variables or between delimiters. -/
inductive IsWrittenName (d : Dialect) : List Char → Prop
  | plain {cs : List Char} (h : IsPlainName cs) : IsWrittenName d cs
  | system {name : List Char} (h : ∀ c ∈ name, isSystemChar c) :
    IsWrittenName d ('@' :: '@' :: name)
  | delimited {quote : Char} (h : IsNameQuote d quote) (text : List Char) :
    IsWrittenName d (Dialect.delimited quote text)

namespace IsWrittenName

variable {d : Dialect} {cs : List Char} {names : List (List Char)}

/-- A written name is one word. -/
theorem spells (h : IsWrittenName d cs) : Spells d cs [.ofName cs] := by
  cases h with
  | plain h => exact (SpellsName.of_isPlainName h).spells
  | system h => exact spells_system h
  | delimited h text => exact (spellsName_delimited h text).spells

/-- Unless it is a system variable, a written name is one word in front of a point, too. -/
theorem spellsName (h : IsWrittenName d cs) :
    SpellsName d cs [.ofName cs] ∨ ∃ name, cs = '@' :: '@' :: name ∧ ∀ c ∈ name, isSystemChar c := by
  cases h with
  | plain h => exact .inl (.of_isPlainName h)
  | system h => exact .inr ⟨_, rfl, h⟩
  | delimited h text => exact .inl (spellsName_delimited h text)

theorem exists_cons (h : IsWrittenName d cs) :
    ∃ c rest, cs = c :: rest ∧ c.isDigit = false ∧ (isSystemChar c → IsPlainName cs) := by
  cases h with
  | @plain cs h =>
    cases cs with
    | nil => exact h.elim
    | cons c rest => exact ⟨c, rest, rfl, isDigit_of_isNameStart h.1, fun _ => h⟩
  | system h => exact ⟨_, _, rfl, rfl, nofun⟩
  | delimited h text =>
    refine ⟨_, _, rfl, ?_⟩
    rcases h with ⟨rfl, -⟩ | ⟨rfl, -⟩ <;> exact ⟨rfl, nofun⟩

theorem isSystemChar_of_isPlainName (h : IsPlainName cs) (noDollar : '$' ∉ cs) :
    ∀ c ∈ cs, isSystemChar c := by
  have word : ∀ c ∈ cs, isNameChar c := by
    cases cs with
    | nil => exact h.elim
    | cons c cs =>
      have start : isNameChar c := by
        have first := h.1
        simp only [isNameStart, Bool.or_eq_true] at first
        rcases first with letter | line <;> simp_all [isNameChar, isWordChar, isAlphanumeric]
      exact List.forall_mem_cons.2 ⟨start, h.2⟩
  intro c hc
  have other : c ≠ '$' := fun dollar => noDollar (dollar ▸ hc)
  have := word c hc
  simp_all [isNameChar, isSystemChar]

/-- A row of names begins with the first of them, and goes on behind a point. -/
theorem intercalate_cons (cs : List Char) (names : List (List Char)) :
    ['.'].intercalate (cs :: names) =
      cs ++ if names = [] then [] else '.' :: ['.'].intercalate names := by
  cases names with
  | nil => simp
  | cons n names => simp [List.intercalate_cons_cons]

/-- A row of names holds each of them. -/
theorem infix_intercalate (h : cs ∈ names) : cs <:+: ['.'].intercalate names := by
  induction names with
  | nil => cases h
  | cons n names ih =>
    rw [intercalate_cons]
    rcases List.mem_cons.1 h with rfl | h
    · exact (List.prefix_append cs _).isInfix
    · rw [if_neg (List.ne_nil_of_mem h)]
      exact (ih h).trans ((List.suffix_cons _ _).trans (List.suffix_append _ _)).isInfix

/-- Names with points between them are words of their own, unless there is a dollar sign in one that
stands beside a system variable: behind the point, the system variable takes over more than it did
alone. -/
theorem exists_spells_intercalate (written : ∀ cs ∈ names, IsWrittenName d cs) :
    ((∀ cs ∈ names, ['@', '@'] <+: cs → ∀ cs' ∈ names, '$' ∉ cs') →
        startsDigit (['.'].intercalate names) = false ∧
          ∃ ws, Spells d (['.'].intercalate names) ws) ∧
      ((∀ cs ∈ names, '$' ∉ cs) → ∀ name, (∀ c ∈ name, isSystemChar c) →
        ∃ ws, Spells d ('@' :: '@' :: (name ++ '.' :: ['.'].intercalate names)) ws) := by
  have point {name : List Char} (hname : ∀ c ∈ name, isSystemChar c) {cs : List Char}
      (hcs : ∀ c ∈ cs, isSystemChar c) : ∀ c ∈ name ++ '.' :: cs, isSystemChar c :=
    List.forall_mem_append.2 ⟨hname, List.forall_mem_cons.2 ⟨by decide, hcs⟩⟩
  induction names with
  | nil =>
    exact ⟨fun _ => ⟨rfl, [], .nil⟩, fun _ name hname => ⟨_, spells_system (point hname nofun)⟩⟩
  | cons cs names ih =>
    obtain ⟨here, others⟩ := List.forall_mem_cons.1 written
    obtain ⟨ihWords, ihBehind⟩ := ih others
    rw [intercalate_cons]
    have words (apart : ∀ n ∈ cs :: names, ['@', '@'] <+: n → ∀ n' ∈ cs :: names, '$' ∉ n') :
        ∃ ws, Spells d (cs ++ if names = [] then [] else '.' :: ['.'].intercalate names) ws := by
      split
      · rw [List.append_nil]
        exact ⟨_, here.spells⟩
      · rcases here.spellsName with spells | ⟨name, rfl, hname⟩
        · obtain ⟨digit, ws, h⟩ := ihWords fun n hn system n' hn' =>
            apart n (List.mem_cons_of_mem _ hn) system n' (List.mem_cons_of_mem _ hn')
          exact ⟨_, spells.pointed h digit⟩
        · have noDollar := apart _ List.mem_cons_self ⟨name, rfl⟩
          exact ihBehind (fun n hn => noDollar n (List.mem_cons_of_mem _ hn)) name hname
    obtain ⟨c, rest, first, digit, start⟩ := here.exists_cons
    refine ⟨fun apart => ⟨by rw [first]; exact digit, words apart⟩, fun noDollar name hname => ?_⟩
    by_cases system : isSystemChar c
    · -- the system variable takes over the whole name
      have grown := point hname (isSystemChar_of_isPlainName (start system)
        (noDollar cs List.mem_cons_self))
      split
      · rw [List.append_nil]
        exact ⟨_, spells_system grown⟩
      · obtain ⟨ws, h⟩ := ihBehind (fun n hn => noDollar n (List.mem_cons_of_mem _ hn)) _ grown
        rw [List.append_assoc, List.cons_append] at h
        exact ⟨ws, h⟩
    · -- the system variable takes over the point alone
      obtain ⟨ws, h⟩ := words fun _ _ _ => noDollar
      generalize (if names = [] then [] else '.' :: ['.'].intercalate names) = tail at h ⊢
      refine ⟨.ofName ('@' :: '@' :: (name ++ ['.'])) :: ws, fun more hmore => ?_⟩
      have head : ∀ x, (cs ++ tail ++ more).head? = some x → isSystemChar x = false := by
        rw [first]
        intro x same
        rw [← Option.some.inj same]
        simpa using system
      have taken := words_system (d := d) (point hname (List.forall_mem_nil _)) head
      rw [h more hmore] at taken
      simpa using taken

end IsWrittenName

section Lexeme

variable {lx : Lexicon} {n : Nat} {c : Char} {cs : List Char}

/-- The characters of a name or keyword are a written name, and mean what they spell. -/
theorem written_lexeme (h : isNameKind (scan lx n c cs).1) :
    IsWrittenName lx.dialect (c :: cs.take (scan lx n c cs).2) ∧
      (scan lx n c cs).1 = word (c :: cs.take (scan lx n c cs).2) := by
  rcases scan_name h with ⟨hc, hscan⟩ | ⟨rfl, hhead, hscan⟩ | ⟨hc, hscan⟩
  · rw [hscan]
    exact ⟨.plain ⟨hc, fun x hx => isNameChar_of_mem_take hx⟩, rfl⟩
  · obtain ⟨cs', rfl⟩ : ∃ cs', cs = '@' :: cs' := by
      cases cs with
      | nil => cases hhead
      | cons x cs' =>
        cases hhead
        exact ⟨cs', rfl⟩
    have hname := List.all_eq_true.1 (List.all_takeWhile (p := isSystemChar) (l := cs'))
    have hprefix := List.prefix_iff_eq_take.1 (List.takeWhile_prefix (l := cs') isSystemChar)
    have hlexeme : '@' :: ('@' :: cs').take (scanSystem ('@' :: cs')).2 =
        '@' :: '@' :: cs'.takeWhile isSystemChar := by
      have hsystem : (scanSystem ('@' :: cs')).2 = (cs'.takeWhile isSystemChar).length + 1 := rfl
      rw [hsystem, List.take_succ_cons, ← hprefix]
    rw [hscan, hlexeme, word_system]
    exact ⟨.system hname, rfl⟩
  · rw [hscan] at h ⊢
    unfold scanDelimited at h ⊢
    split
    · rename_i text m hbody
      dsimp only
      rw [take_quotedBody hbody]
      exact ⟨.delimited hc text, (hc.word _).symm⟩
    · rename_i hbody
      rw [hbody] at h
      cases h

/-- The characters of a name or keyword are this word by themselves, and an identifier is its
characters. -/
theorem spells_lexeme (h : isNameKind (scan lx n c cs).1) :
    Spells lx.dialect (c :: cs.take (scan lx n c cs).2)
        [⟨(scan lx n c cs).1, c :: cs.take (scan lx n c cs).2⟩] ∧
      ∀ text, (scan lx n c cs).1 = .identifier text →
        text = String.ofList (c :: cs.take (scan lx n c cs).2) := by
  obtain ⟨written, kind⟩ := written_lexeme h
  generalize c :: cs.take (scan lx n c cs).2 = lexeme at written kind
  rw [kind]
  refine ⟨written.spells, fun text identifier => ?_⟩
  unfold word at identifier
  split at identifier <;> cases identifier
  rfl

end Lexeme

/-- The token is what the lexical rules of the dialect make of its characters. -/
structure Token.Lawful (d : Dialect) (t : Token) : Prop where
  /-- A name is written as it is. -/
  text : ∀ text, t.kind = .identifier text → text = t.text
  /-- Names and keywords are read by themselves as what they are. -/
  spells : isNameKind t.kind → Spells d t.lexeme [t.toWord]
  written : isNameKind t.kind → IsWrittenName d t.lexeme
  /-- A tilde means what it means in the dialect. -/
  tilde : ∀ p, t.kind = .punct p →
    (isMatching p → d.regexpOperators) ∧ (p = .bitNot → d.regexpOperators = false)

/-- The tokens of a text are what the lexical rules make of their characters, whatever the
delimiter of statements is. -/
theorem Lexer.lawful_of_mem_tokens {d : Dialect} {l : Lexer} (hl : l.lexicon.dialect = d)
    {t : Token} (ht : t ∈ l.tokens) : t.Lawful d := by
  rcases scanned_of_mem_tokens ht with ⟨heof, -⟩ | ⟨n, c, cs, hkind, hlexeme⟩
  · exact ⟨by simp [heof], by simp [heof, isNameKind], by simp [heof, isNameKind], by simp [heof]⟩
  · subst hl
    refine ⟨fun text h => ?_, fun h => ?_, fun h => ?_, fun p h => ?_⟩
    · rw [hkind] at h
      have hname : isNameKind (scan l.lexicon n c cs).1 := by rw [h]; rfl
      rw [Token.text, hlexeme]
      exact (spells_lexeme hname).2 text h
    · rw [hkind] at h
      rw [Token.toWord, hkind, hlexeme]
      exact (spells_lexeme h).1
    · rw [hkind] at h
      rw [hlexeme]
      exact (written_lexeme h).1
    · exact scan_tilde (hkind.symm.trans h)

end BoundSql
