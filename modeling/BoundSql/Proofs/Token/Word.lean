import BoundSql.Token.Lexer

/-!
# Words

A `Word` is a token without its place. `Lexicon.words` are the words of a text, which depend neither
on where the text stands nor on the blanks and comments in it; `Lexer.toWord_tokens` says that they
are what a lexer reads. `Token.Scanned` lists the ways in which a text opens with a token.
-/

namespace BoundSql

open Text Token

/-- What a token means and how it is written. -/
structure Word where
  kind : TokenKind
  lexeme : List Char
  deriving DecidableEq, Repr

namespace Word

/-- The end of the input. -/
def eof : Word := ⟨.eof, []⟩

/-- The word as a string. -/
def text (w : Word) : String := String.ofList w.lexeme

/-- The word is no error. -/
def Sound (w : Word) : Prop := ∀ e, w.kind ≠ .error e

/-- A placeholder whose name is its number. -/
def IsBare (w : Word) : Prop := w.lexeme = ['?']

instance (w : Word) : Decidable w.IsBare := inferInstanceAs (Decidable (_ = _))

end Word

/-- The token without its place. -/
def Token.toWord (t : Token) : Word := ⟨t.kind, t.lexeme⟩

@[simp] theorem Token.toWord_kind (t : Token) : t.toWord.kind = t.kind := rfl

@[simp] theorem Token.toWord_text (t : Token) : t.toWord.text = t.text := rfl

namespace Token.Lexicon

/-- The text behind the blanks and comments that it begins with. -/
def ahead (lx : Lexicon) (cs : List Char) : List Char :=
  cs.drop (gapLength lx.dialect.hashComments 0 cs)

theorem length_ahead_le (lx : Lexicon) (cs : List Char) : (lx.ahead cs).length ≤ cs.length := by
  simp [ahead]

/-- The number of bare placeholders up to and including a word. -/
def countBare (n : Nat) (lexeme : List Char) : Nat := if lexeme = ['?'] then n + 1 else n

/-- The words of a text, `n` bare placeholders standing in front of it. -/
def words (lx : Lexicon) (n : Nat) (cs : List Char) : List Word :=
  match _h : lx.ahead cs with
  | [] => []
  | c :: rest =>
    let (kind, more) := scan lx n c rest
    ⟨kind, c :: rest.take more⟩ :: words lx (countBare n (c :: rest.take more)) (rest.drop more)
termination_by cs.length
decreasing_by
  have hle := lx.length_ahead_le cs
  rw [_h, List.length_cons] at hle
  simp only [List.length_drop]
  omega

/-- The blanks and comments behind the last word. -/
def trailing (lx : Lexicon) (n : Nat) (cs : List Char) : List Char :=
  match _h : lx.ahead cs with
  | [] => cs
  | c :: rest =>
    let (_, more) := scan lx n c rest
    trailing lx (countBare n (c :: rest.take more)) (rest.drop more)
termination_by cs.length
decreasing_by
  have hle := lx.length_ahead_le cs
  rw [_h, List.length_cons] at hle
  simp only [List.length_drop]
  omega

variable {lx : Lexicon} {n : Nat} {c : Char} {cs rest : List Char}

theorem words_of_ahead_nil (h : lx.ahead cs = []) : lx.words n cs = [] := by
  rw [words.eq_def]
  split
  · rfl
  · simp_all

theorem words_of_ahead_cons (h : lx.ahead cs = c :: rest) :
    lx.words n cs =
      ⟨(scan lx n c rest).1, c :: rest.take (scan lx n c rest).2⟩ ::
        lx.words (countBare n (c :: rest.take (scan lx n c rest).2))
          (rest.drop (scan lx n c rest).2) := by
  rw [words.eq_def]
  split
  · simp_all
  · rename_i h'
    rw [h] at h'
    cases h'
    rfl

theorem trailing_of_ahead_nil (h : lx.ahead cs = []) : lx.trailing n cs = cs := by
  rw [trailing.eq_def]
  split
  · rfl
  · simp_all

theorem trailing_of_ahead_cons (h : lx.ahead cs = c :: rest) :
    lx.trailing n cs =
      lx.trailing (countBare n (c :: rest.take (scan lx n c rest).2))
        (rest.drop (scan lx n c rest).2) := by
  rw [trailing.eq_def]
  split
  · simp_all
  · rename_i h'
    rw [h] at h'
    cases h'
    rfl

@[simp] theorem ahead_nil (lx : Lexicon) : lx.ahead [] = [] := by
  simp [ahead]

@[simp] theorem words_nil (lx : Lexicon) (n : Nat) : lx.words n [] = [] :=
  words_of_ahead_nil lx.ahead_nil

/-- A blank in front of a text belongs to its gap. -/
theorem ahead_blank (lx : Lexicon) (hc : isBlank c) (cs : List Char) :
    lx.ahead (c :: cs) = lx.ahead cs := by
  simp [ahead, gapLength, hc]

/-- The words of a text depend only on what stands behind its gap. -/
theorem words_congr {cs' : List Char} (h : lx.ahead cs = lx.ahead cs') :
    lx.words n cs = lx.words n cs' := by
  cases h' : lx.ahead cs' with
  | nil => rw [words_of_ahead_nil h', words_of_ahead_nil (h.trans h')]
  | cons d rest => rw [words_of_ahead_cons h', words_of_ahead_cons (h.trans h')]

theorem words_blank (lx : Lexicon) (n : Nat) (hc : isBlank c) (cs : List Char) :
    lx.words n (c :: cs) = lx.words n cs :=
  words_congr (lx.ahead_blank hc cs)

end Token.Lexicon

namespace Token

/-- The kinds of tokens that are neither a sign nor the end of the input. -/
def hasContent : TokenKind → Bool
  | .punct _ | .eof => false
  | _ => true

theorem hasContent_toKind (p : Except LexicalError Placeholder) :
    hasContent (Placeholder.toKind p) := by
  cases p <;> rfl

theorem hasContent_word (cs : List Char) : hasContent (word cs) := by
  unfold word
  split <;> rfl

theorem hasContent_number (cs : List Char) (whole : Bool) : hasContent (number cs whole) := by
  unfold number
  split
  · rfl
  · split <;> rfl

theorem hasContent_scanDelimited (quote : Char) (cs : List Char) :
    hasContent (scanDelimited quote cs).1 := by
  unfold scanDelimited
  split <;> rfl

/-- A dollar-quoted string goes from a tag up to the same tag; without that one it is an error. -/
theorem scanDollar?_eq_some {cs : List Char} {a : TokenKind × Nat} (h : scanDollar? cs = some a) :
    ∃ name body, cs.takeWhile isWordChar = name ∧ cs = name ++ '$' :: body ∧
      (name.head?.map Char.isDigit).getD false ≠ true ∧
      ((∃ n, find? ('$' :: name ++ ['$']) body = some n ∧
        a = (.string (String.ofList (body.take n)), n + 2 * name.length + 3)) ∨
      a = (.error .unterminatedDollarString, cs.length)) := by
  unfold scanDollar? at h
  dsimp only at h
  split at h
  · rename_i body behind
    have spelled := List.prefix_iff_eq_append.1 (List.takeWhile_prefix isWordChar (l := cs))
    rw [behind] at spelled
    split at h
    · cases h
    · rename_i noDigit
      refine ⟨cs.takeWhile isWordChar, body, rfl, spelled.symm, noDigit, ?_⟩
      split at h
      · rename_i n found
        cases h
        exact .inl ⟨n, found, rfl⟩
      · cases h
        exact .inr rfl
  · cases h

theorem scanDollar?_of_tag {name body : List Char} {n : Nat}
    (run : (name ++ '$' :: body).takeWhile isWordChar = name)
    (noDigit : (name.head?.map Char.isDigit).getD false ≠ true)
    (found : find? ('$' :: name ++ ['$']) body = some n) : scanDollar? (name ++ '$' :: body) =
      some (.string (String.ofList (body.take n)), n + 2 * name.length + 3) := by
  unfold scanDollar?
  simp only [run, List.drop_left, if_neg noDigit, found]

theorem hasContent_scanHost (n : Nat) (sign : Char) (cs : List Char) :
    hasContent (scanHost n sign cs).1 := by
  unfold scanHost
  extract_lets name
  split
  · rfl
  · split <;> rfl

/-- The ways in which the text `c :: cs` opens with a token. -/
inductive Scanned (lx : Lexicon) (n : Nat) (c : Char) (cs : List Char) : TokenKind × Nat → Prop
  | error (e : LexicalError) (k : Nat) : Scanned lx n c cs (.error e, k)
  | delimiter (custom : lx.atDelimiter (c :: cs)) :
    Scanned lx n c cs (.punct .semicolon, lx.delimiter.length - 1)
  | comment (content : List Char) (attached : Bool) (k : Nat) :
    Scanned lx n c cs (Placeholder.toKind (Placeholder.ofComment content attached), k)
  | marked (body : List Char) (k : Nat) :
    Scanned lx n c cs (Placeholder.toKind (Placeholder.ofBody body), k)
  | string (text : String) (k : Nat) : Scanned lx n c cs (.string text, k)
  | blob (bytes : List UInt8) (k : Nat) : Scanned lx n c cs (.blob bytes, k)
  | delimited (quote : c = '"' ∧ lx.dialect.doubleQuotedStrings = false ∨
      c = '\x60' ∧ lx.dialect.backtickIdentifiers = true) :
    Scanned lx n c cs (scanDelimited c cs)
  | number : Scanned lx n c cs (scanNumber (c :: cs))
  | name (start : startsName [c]) : Scanned lx n c cs (scanName lx c cs)
  | system (sign : c = '@') (second : cs.head? = some '@') : Scanned lx n c cs (scanSystem cs)
  | host : Scanned lx n c cs (scanHost n c cs)
  | sign : Scanned lx n c cs (scanPunct lx c cs)

section Scanned

variable {lx : Lexicon} {n : Nat} {c : Char} {cs : List Char}

theorem scanned_placeholder (text : List Char) :
    Scanned lx n c cs ((Placeholder.scan text).1, (Placeholder.scan text).2 + 1) := by
  unfold Placeholder.scan
  dsimp only
  split
  · split
    · exact .comment _ _ _
    · exact .error _ _
  · exact .marked _ _

theorem scanned_string (d : Dialect) (quote : Char) : Scanned lx n c cs (scanString d quote cs) := by
  unfold scanString
  split
  · exact .string _ _
  · exact .error _ _

theorem scanned_blob : Scanned lx n c cs (scanBlob cs) := by
  unfold scanBlob
  dsimp only
  split
  · exact .error _ _
  · split
    · exact .blob _ _
    · exact .error _ _
  · exact .error _ _

theorem scanned_dollar {a : TokenKind × Nat} (h : scanDollar? cs = some a) :
    Scanned lx n c cs a := by
  obtain ⟨-, -, -, -, -, ⟨_, -, rfl⟩ | rfl⟩ := scanDollar?_eq_some h
  · exact .string _ _
  · exact .error _ _

variable (lx n c cs)

theorem scanned_plain : Scanned lx n c cs (scanPlain lx n c cs) := by
  unfold scanPlain
  split
  · exact .name ‹_›
  · split
    · rename_i system
      simp only [Bool.and_eq_true, decide_eq_true_eq, beq_iff_eq] at system
      exact .system system.1 system.2
    · split
      · exact .host
      · exact .sign

/-- A token is read in one of these ways. -/
theorem scanned_scan : Scanned lx n c cs (scan lx n c cs) := by
  unfold scan
  split
  · exact .error _ _
  · exact .comment _ _ _
  · split
    · exact .delimiter ‹_›
    · split
      · exact scanned_placeholder _
      · split
        · exact scanned_string _ _
        · split
          · rename_i quote
            subst quote
            split
            · exact scanned_string _ _
            · rename_i noStrings
              exact .delimited (.inl ⟨rfl, by simpa using noStrings⟩)
          · split
            · rename_i quote
              simp only [Bool.and_eq_true, decide_eq_true_eq] at quote
              obtain ⟨rfl, ticks⟩ := quote
              exact .delimited (.inr ⟨rfl, ticks⟩)
            · split
              · exact scanned_blob
              · split
                · exact .number
                · split
                  · rename_i dollar
                    split at dollar
                    · exact scanned_dollar dollar
                    · cases dollar
                  · exact scanned_plain lx n c cs

end Scanned

/-- A sign is read as one, or is the custom delimiter. -/
theorem scan_cases (lx : Lexicon) (n : Nat) (c : Char) (cs : List Char) :
    hasContent (scan lx n c cs).1 ∨ scan lx n c cs = scanPunct lx c cs ∨
      lx.atDelimiter (c :: cs) ∧ scan lx n c cs = (.punct .semicolon, lx.delimiter.length - 1) := by
  have scanned := scanned_scan lx n c cs
  generalize scan lx n c cs = answer at scanned
  cases scanned with
  | delimiter custom => exact .inr (.inr ⟨custom, rfl⟩)
  | sign => exact .inr (.inl rfl)
  | comment | marked => exact .inl (hasContent_toKind _)
  | delimited => exact .inl (hasContent_scanDelimited _ _)
  | number => exact .inl (hasContent_number _ _)
  | name => exact .inl (hasContent_word _)
  | host => exact .inl (hasContent_scanHost _ _ _)
  | error | string | blob | system => exact .inl rfl

theorem scanPunct_ne_eof (lx : Lexicon) (c : Char) (cs : List Char) :
    (scanPunct lx c cs).1 ≠ .eof := by
  unfold scanPunct
  split <;> (try split) <;> simp

/-- Only the end of a text is the end of the input. -/
theorem scan_ne_eof (lx : Lexicon) (n : Nat) (c : Char) (cs : List Char) :
    (scan lx n c cs).1 ≠ .eof := by
  rcases scan_cases lx n c cs with content | sign | ⟨-, delimiter⟩
  · intro eof
    rw [eof] at content
    cases content
  · rw [sign]
    exact scanPunct_ne_eof _ _ _
  · rw [delimiter]
    simp

/-- Without a custom delimiter a semicolon is just that. -/
theorem scan_semicolon {lx : Lexicon} (hlx : lx.delimiter = []) {n : Nat} {c : Char}
    {cs : List Char} (h : (scan lx n c cs).1 = .punct .semicolon) :
    c = ';' ∧ (scan lx n c cs).2 = 0 := by
  rcases scan_cases lx n c cs with content | sign | ⟨delimiter, -⟩
  · rw [h] at content
    cases content
  · rw [sign] at h ⊢
    revert h
    unfold scanPunct
    split <;> (try split) <;> simp
  · simp [Lexicon.atDelimiter, hlx] at delimiter

/-- Without a custom delimiter a semicolon is a token by itself. -/
theorem scan_of_semicolon {lx : Lexicon} (hlx : lx.delimiter = []) (n : Nat) (cs : List Char) :
    scan lx n ';' cs = (.punct .semicolon, 0) := by
  have delimiter : lx.atDelimiter (';' :: cs) = false := by simp [Lexicon.atDelimiter, hlx]
  have name : startsName [';'] = false := by decide
  have plain : scanPlain lx n ';' cs = (.punct .semicolon, 0) := by
    simp [scanPlain, scanPunct, name, hlx]
  simp [scan, commentLead, delimiter, plain, Char.isDigit]

/-- Without a custom delimiter each semicolon ends a statement. -/
theorem scan_ne_blockSemicolon {lx : Lexicon} (hlx : lx.delimiter = []) (n : Nat) (c : Char)
    (cs : List Char) : (scan lx n c cs).1 ≠ .punct .blockSemicolon := by
  rcases scan_cases lx n c cs with content | sign | ⟨-, delimiter⟩
  · intro h
    rw [h] at content
    cases content
  · rw [sign]
    unfold scanPunct
    rw [hlx]
    split <;> (try split) <;> simp_all
  · rw [delimiter]
    simp

end Token

namespace Lexer

variable {l : Lexer} {c : Char} {cs : List Char}

theorem ahead_eq (l : Lexer) : l.ahead = l.lexicon.ahead l.rest := rfl

theorem next_of_ahead_nil (h : l.lexicon.ahead l.rest = []) : l.next.1.toWord = Word.eof := by
  rw [next, ahead_eq, h]
  rfl

theorem next_of_ahead_cons (h : l.lexicon.ahead l.rest = c :: cs) :
    l.next = l.cut (scan l.lexicon l.ordinal c cs).1 c cs (scan l.lexicon l.ordinal c cs).2 := by
  rw [next, ahead_eq, h]

/-- The next token is the one that the text from there on opens with. -/
theorem next_of_scan {kind : TokenKind} {n : Nat} (h : l.lexicon.ahead l.rest = c :: cs)
    (scanned : scan l.lexicon l.ordinal c cs = (kind, n)) : l.next = l.cut kind c cs n := by
  rw [next_of_ahead_cons h, scanned]

theorem tokens_of_eof (h : l.next.1.kind = .eof) : l.tokens = [l.next.1] := by
  rw [tokens.eq_def]
  split
  rename_i t l' hn
  rw [hn] at h ⊢
  simp_all

theorem tokens_of_ne_eof (h : l.next.1.kind ≠ .eof) :
    l.tokens = l.next.1 :: l.next.2.tokens := by
  rw [tokens.eq_def]
  split
  rename_i t l' hn
  rw [hn] at h ⊢
  simp [h]

/-- A text that is more than a gap begins with a token that is not the end of the input. -/
theorem kind_next_ne_eof (h : l.lexicon.ahead l.rest = c :: cs) : l.next.1.kind ≠ .eof := by
  rw [next_of_ahead_cons h]
  exact scan_ne_eof _ _ _ _

/-- The tokens of a text are its words and the end of the input. -/
theorem toWord_tokens (l : Lexer) :
    l.tokens.map Token.toWord = l.lexicon.words l.ordinal l.rest ++ [Word.eof] := by
  induction hn : l.rest.length using Nat.strongRecOn generalizing l with
  | ind n ih =>
    cases h : l.lexicon.ahead l.rest with
    | nil =>
      have hword := next_of_ahead_nil h
      have hkind : l.next.1.kind = .eof := congrArg Word.kind hword
      rw [tokens_of_eof hkind, Lexicon.words_of_ahead_nil h]
      simp [hword]
    | cons c cs =>
      have hkind := kind_next_ne_eof h
      rw [tokens_of_ne_eof hkind, Lexicon.words_of_ahead_cons h, List.map_cons,
        ih _ (hn ▸ length_rest_next_lt hkind) _ rfl, next_of_ahead_cons h]
      rfl

/-- The tokens of a text read from its beginning. -/
theorem toWord_tokens_ofText (lx : Lexicon) (text : List Char) (pos : Position) :
    (ofText lx text pos).tokens.map Token.toWord = lx.words 0 text ++ [Word.eof] :=
  toWord_tokens _

end Lexer

/-! ## Bare placeholders -/

namespace Word

/-- A placeholder with the number that is its name. -/
def bare (n : Nat) : Word := ⟨.hostParam s!"?{n}", ['?']⟩

/-- The words with their bare placeholders numbered behind `n` others. -/
def numbered (n : Nat) : List Word → List Word
  | [] => []
  | w :: ws => if w.IsBare then bare (n + 1) :: numbered (n + 1) ws else w :: numbered n ws

/-- The word without the number that it has if it is a bare placeholder. -/
def unnumbered (w : Word) : Word := if w.IsBare then bare 0 else w

theorem isBare_unnumbered {w : Word} : w.unnumbered.IsBare ↔ w.IsBare := by
  unfold unnumbered
  split
  · rename_i h
    exact iff_of_true rfl h
  · rfl

theorem numbered_unnumbered (n : Nat) (ws : List Word) :
    numbered n (ws.map unnumbered) = numbered n ws := by
  induction ws generalizing n with
  | nil => rfl
  | cons w ws ih =>
    rw [List.map_cons, numbered, numbered, ih, ih]
    by_cases h : w.IsBare
    · rw [if_pos h, if_pos (isBare_unnumbered.2 h)]
    · rw [if_neg h, if_neg (mt isBare_unnumbered.1 h), unnumbered, if_neg h]

theorem unnumbered_numbered (n : Nat) (ws : List Word) :
    (numbered n ws).map unnumbered = ws.map unnumbered := by
  induction ws generalizing n with
  | nil => rfl
  | cons w ws ih =>
    rw [numbered]
    split
    · rename_i h
      rw [List.map_cons, List.map_cons, ih, unnumbered, unnumbered, if_pos h]
      rfl
    · rw [List.map_cons, List.map_cons, ih]

end Word

namespace Token

variable {lx : Lexicon} {n : Nat} {c : Char} {cs : List Char}

/-- Only a bare placeholder is numbered. -/
theorem scan_ordinal (hc : c ≠ '?') (m : Nat) : scan lx n c cs = scan lx m c cs := by
  have host : scanHost n c cs = scanHost m c cs := by simp only [scanHost, if_neg hc]
  have plain : scanPlain lx n c cs = scanPlain lx m c cs := by rw [scanPlain, scanPlain, host]
  rw [scan, scan, plain]

/-- A question mark is a placeholder, whatever follows. -/
theorem scan_questionMark (hlx : lx.delimiter = []) (n : Nat) (cs : List Char) :
    scan lx n '?' cs = scanHost n '?' cs := by
  have free : lx.atDelimiter ('?' :: cs) = false := by simp [Lexicon.atDelimiter, hlx]
  have noName : startsName ['?'] = false := by decide
  simp [scan, commentLead, free, scanPlain, noName]

/-- A question mark in front of no digit is a bare placeholder. -/
theorem scan_bare (hlx : lx.delimiter = []) (h : startsDigit cs = false) (n : Nat) :
    scan lx n '?' cs = ((Word.bare (n + 1)).kind, 0) := by
  have noDigit : (cs.head?.map Char.isDigit).getD false = false := by cases cs <;> exact h
  rw [scan_questionMark hlx, scanHost, noDigit]
  rfl

/-- The token that a text opens with depends on the bare placeholders in front of it only if it is
another one. -/
theorem scan_numbered (hlx : lx.delimiter = []) (c : Char) (cs : List Char) :
    (∀ n m, scan lx n c cs = scan lx m c cs ∧ c :: cs.take (scan lx n c cs).2 ≠ ['?']) ∨
      c = '?' ∧ ∀ n, scan lx n c cs = ((Word.bare (n + 1)).kind, 0) := by
  by_cases mark : c = '?'
  · subst mark
    cases digit : startsDigit cs with
    | true =>
      cases cs with
      | nil => cases digit
      | cons d ds =>
        have first : d.isDigit := digit
        refine .inl fun n m => ?_
        rw [scan_questionMark hlx, scan_questionMark hlx]
        simp [scanHost, first]
    | false => exact .inr ⟨rfl, scan_bare hlx digit⟩
  · exact .inl fun n m => ⟨scan_ordinal mark m, by simp [mark]⟩

/-- The words of a text depend on how many bare placeholders stand in front of it only through the
numbers of its own. -/
theorem Lexicon.words_numbered (hlx : lx.delimiter = []) (n m : Nat) (cs : List Char) :
    lx.words n cs = Word.numbered n (lx.words m cs) := by
  induction hk : cs.length using Nat.strongRecOn generalizing cs n m with
  | ind k ih =>
    cases ahead : lx.ahead cs with
    | nil =>
      rw [words_of_ahead_nil ahead, words_of_ahead_nil ahead]
      rfl
    | cons c tail =>
      have shorter (j : Nat) : (tail.drop j).length < k := by
        have := lx.length_ahead_le cs
        rw [ahead, List.length_cons] at this
        rw [List.length_drop]
        omega
      have behind (n m j : Nat) := ih _ (shorter j) n m (tail.drop j) rfl
      rw [words_of_ahead_cons ahead, words_of_ahead_cons ahead, Word.numbered]
      rcases scan_numbered hlx c tail with same | ⟨rfl, bare⟩
      · obtain ⟨scanned, solid⟩ := same m n
        have notBare : ¬ Word.IsBare ⟨(scan lx m c tail).1, c :: tail.take (scan lx m c tail).2⟩ :=
          solid
        rw [← scanned, if_neg notBare, countBare, if_neg solid, countBare, if_neg solid, behind]
      · have isBare : Word.IsBare ⟨(Word.bare (m + 1)).kind, '?' :: tail.take 0⟩ := rfl
        rw [bare, bare, if_pos isBare]
        exact congrArg (Word.bare (n + 1) :: ·) (behind (n + 1) (m + 1) 0)

end Token

end BoundSql
