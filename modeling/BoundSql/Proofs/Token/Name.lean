import BoundSql.Proofs.Token.Number
import BoundSql.Proofs.Token.Quoted

/-!
# Names as words

A name without delimiters is one word, a keyword or an identifier; a name between delimiters is one
identifier, whatever it holds. `spells_dotted` puts names together with points between them.
-/

namespace BoundSql

open Text Token

namespace Token

variable {lx : Lexicon} {n : Nat} {c : Char} {cs rest : List Char}

theorem commentLead_of_isNameStart {hash : Bool} (hc : isNameStart c) :
    commentLead hash (c :: cs) = .none :=
  commentLead_of_class rfl rfl rfl hc

theorem commentLead_of_isWordChar {hash : Bool} (hc : isWordChar c) :
    commentLead hash (c :: cs) = .none :=
  commentLead_of_class rfl rfl rfl hc

/-- A letter begins a name, unless it marks a blob. -/
theorem scan_of_isNameStart (hlx : lx.delimiter = []) (hc : isNameStart c)
    (hblob : c = 'X' ∨ c = 'x' → cs.head? ≠ some '\'') : scan lx n c cs = scanName lx c cs := by
  have hne {k : Char} (hk : isNameStart k = false) : c ≠ k := ne_of_class hc hk
  have hat : lx.atDelimiter (c :: cs) = false := by simp [Lexicon.atDelimiter, hlx]
  have hx : ((decide (c = 'X') || decide (c = 'x')) && cs.head? == some '\'') = false := by
    rw [Bool.eq_false_iff]
    intro h
    simp only [Bool.and_eq_true, Bool.or_eq_true, decide_eq_true_eq, beq_iff_eq] at h
    exact hblob h.1 h.2
  unfold scan
  simp only [commentLead_of_isNameStart hc, hat, hx, isDigit_of_isNameStart hc, hne (k := '#') rfl, hne (k := '\'') rfl,
    hne (k := '"') rfl, hne (k := '\x60') rfl, hne (k := '.') rfl, hne (k := '$') rfl, decide_false,
    Bool.false_and, Bool.false_or, Bool.false_eq_true, if_false]
  rw [scanPlain, startsName_cons, if_pos hc]

/-- A name ends in front of what cannot belong to it. -/
theorem nameLength_run (hlx : lx.delimiter = []) (hcs : ∀ c ∈ cs, isNameChar c)
    (hrest : ∀ c, rest.head? = some c → isNameChar c = false) :
    nameLength lx (cs ++ rest) = cs.length := by
  have hat (cs : List Char) : lx.atDelimiter cs = false := by simp [Lexicon.atDelimiter, hlx]
  induction cs with
  | nil =>
    cases rest with
    | nil => rfl
    | cons c rest => simp [nameLength, hrest c rfl]
  | cons c cs ih =>
    have hc : isNameChar c := hcs c List.mem_cons_self
    simp [nameLength, hat, hc, ih fun d hd => hcs d (List.mem_cons_of_mem _ hd)]

end Token

/-- What can follow a name immediately: a stop, or a point that begins no number. -/
def EndsName (cs : List Char) : Prop :=
  Ends cs ∨ ∃ tail, cs = '.' :: tail ∧ startsDigit tail = false

theorem Token.Ends.endsName {cs : List Char} (h : Ends cs) : EndsName cs := .inl h

/-- What follows a name does not belong to it, whatever characters names consist of. -/
theorem EndsName.breakFree {p : Char → Bool} (hp : BreakFree p) (hdot : p '.' = false)
    {cs : List Char} (h : EndsName cs) (c : Char) (hc : cs.head? = some c) : p c = false := by
  rcases h with h | ⟨tail, rfl, -⟩
  · exact hp c (isBreak_of_isStop (h c hc))
  · cases hc
    exact hdot

namespace Token

theorem startsDigit_of_append {cs ds : List Char} (hcs : startsDigit cs = false)
    (hds : startsDigit ds = false) : startsDigit (cs ++ ds) = false := by
  cases cs with
  | nil => exact hds
  | cons c cs => exact hcs

end Token

theorem EndsName.startsDigit {cs : List Char} (h : EndsName cs) : startsDigit cs = false := by
  rcases h with h | ⟨tail, rfl, -⟩
  · cases cs with
    | nil => rfl
    | cons c cs => exact breakFree_isDigit c h.breaks.isBreak
  · rfl

/-- A name that is written without delimiters. -/
def IsPlainName : List Char → Prop
  | [] => False
  | c :: cs => isNameStart c ∧ ∀ d ∈ cs, isNameChar d

instance : (cs : List Char) → Decidable (IsPlainName cs)
  | [] => inferInstanceAs (Decidable False)
  | c :: cs => decidable_of_iff ((isNameStart c && cs.all isNameChar) = true) (by simp [IsPlainName])

/-- The text is these words in front of whatever ends a name. -/
def SpellsName (d : Dialect) (cs : List Char) (ws : List Word) : Prop :=
  ∀ rest, EndsName rest → d.words (cs ++ rest) = ws ++ d.words rest

/-- The word of a name as it is written. -/
def Word.ofName (cs : List Char) : Word := ⟨word cs, cs⟩

namespace SpellsName

variable {d : Dialect} {cs : List Char} {ws : List Word}

theorem spells (h : SpellsName d cs ws) : Spells d cs ws :=
  fun rest hrest => h rest hrest.endsName

/-- A name without delimiters is the keyword or identifier that it spells. -/
theorem of_isPlainName (h : IsPlainName cs) : SpellsName d cs [.ofName cs] := by
  cases cs with
  | nil => exact h.elim
  | cons c cs =>
    intro rest hrest
    obtain ⟨hc, hcs⟩ := h
    have hblob : c = 'X' ∨ c = 'x' → (cs ++ rest).head? ≠ some '\'' := by
      intro _ hquote
      cases cs with
      | nil =>
        have hp : BreakFree (· == '\'') := breakFree_of (by decide)
        have := hrest.breakFree hp rfl '\'' hquote
        cases this
      | cons e es =>
        have he : isNameChar e := hcs e List.mem_cons_self
        exact ne_of_class he rfl (by simpa using hquote)
    have hscan := scan_of_isNameStart (n := 0) d.lexicon_delimiter hc hblob
    rw [scanName, nameLength_run d.lexicon_delimiter hcs (hrest.breakFree breakFree_isNameChar rfl),
      List.take_left] at hscan
    refine Dialect.words_cons (isBlank_of_isNameStart hc) (fun more => ?_) rfl hscan ?_
    · simp [commentLead_of_isNameStart hc]
    · intro h
      injection h with h
      exact ne_of_class (k := '?') hc rfl h

/-- A point in front of what begins no number. -/
theorem dot {cs : List Char} (h : startsDigit cs = false) :
    d.words ('.' :: cs) = ⟨.punct .dot, ['.']⟩ :: d.words cs := by
  refine @Dialect.words_cons d '.' cs [] cs _ rfl (fun more => by simp [commentLead]) rfl ?_ (by simp)
  have hscan : scan d.lexicon 0 '.' cs =
      if startsDigit cs then scanNumber ('.' :: cs) else (.punct .dot, 0) := rfl
  rw [hscan, h]
  rfl

/-- A point and more behind a name. -/
theorem pointed {ds : List Char} {vs : List Word} (h : SpellsName d cs ws) (hds : Spells d ds vs)
    (hdigit : startsDigit ds = false) :
    Spells d (cs ++ '.' :: ds) (ws ++ ⟨.punct .dot, ['.']⟩ :: vs) := by
  intro rest hrest
  have hdot : startsDigit (ds ++ rest) = false :=
    startsDigit_of_append hdigit hrest.endsName.startsDigit
  rw [List.append_assoc, List.cons_append, h _ (.inr ⟨_, rfl, hdot⟩), dot hdot, hds rest hrest,
    List.append_assoc, List.cons_append]

end SpellsName

/-- No keyword begins with a delimiter. -/
theorem Keyword.ofWord?_eq_none {c : Char} (hc : (Keyword.all.all fun k =>
    k.spelling.toList.head? != some c.toUpper) = true) (cs : List Char) :
    Keyword.ofWord? (c :: cs) = none := by
  rw [Keyword.ofWord?, List.find?_eq_none]
  intro k hk hspelling
  have hne := List.all_eq_true.1 hc k hk
  rw [beq_iff_eq.1 hspelling] at hne
  simp [upper] at hne

theorem word_quote (cs : List Char) : word ('"' :: cs) = .identifier (String.ofList ('"' :: cs)) := by
  rw [word, Keyword.ofWord?_eq_none (by decide)]

theorem word_backtick (cs : List Char) :
    word ('\x60' :: cs) = .identifier (String.ofList ('\x60' :: cs)) := by
  rw [word, Keyword.ofWord?_eq_none (by decide)]

/-- The delimiters of names in a dialect. -/
def Token.IsNameQuote (d : Dialect) (quote : Char) : Prop :=
  quote = '"' ∧ d.doubleQuotedStrings = false ∨ quote = '\x60' ∧ d.backtickIdentifiers = true

namespace Token.IsNameQuote

variable {d : Dialect} {quote : Char}

theorem scan (h : IsNameQuote d quote) (n : Nat) (cs : List Char) :
    Token.scan d.lexicon n quote cs = scanDelimited quote cs := by
  rcases h with ⟨rfl, hd⟩ | ⟨rfl, hd⟩
  · have double : Token.scan d.lexicon n '"' cs =
        if d.doubleQuotedStrings then scanString d '"' cs else scanDelimited '"' cs := rfl
    rw [double, hd]
    rfl
  · simp [Token.scan, commentLead, hd]

theorem ahead (h : IsNameQuote d quote) (cs : List Char) :
    d.lexicon.ahead (quote :: cs) = quote :: cs := by
  rcases h with ⟨rfl, -⟩ | ⟨rfl, -⟩ <;>
    exact Lexicon.ahead_cons (by decide) fun more => by simp [commentLead]

theorem word (h : IsNameQuote d quote) (cs : List Char) :
    Token.word (quote :: cs) = .identifier (String.ofList (quote :: cs)) := by
  rcases h with ⟨rfl, -⟩ | ⟨rfl, -⟩
  · exact word_quote cs
  · exact word_backtick cs

theorem ne_bare (h : IsNameQuote d quote) (cs : List Char) : quote :: cs ≠ ['?'] := by
  rcases h with ⟨rfl, -⟩ | ⟨rfl, -⟩ <;> simp

end Token.IsNameQuote

/-- A delimited name is one word in front of anything but another delimiter. -/
theorem words_delimited {d : Dialect} {quote : Char} (h : IsNameQuote d quote) (text : List Char)
    {rest : List Char} (hrest : rest.head? ≠ some quote) :
    d.words (Dialect.delimited quote text ++ rest) =
      .ofName (Dialect.delimited quote text) :: d.words rest := by
  have hbody := quotedBody_flatMap (escaped_delimited quote) text hrest
  rw [Dialect.delimited, Word.ofName, List.cons_append, List.cons_append]
  generalize (text.flatMap fun c => if c = quote then [quote, quote] else [c]) = body at hbody ⊢
  have htake : (body ++ quote :: rest).take (body.length + 1) = body ++ [quote] := by
    rw [← List.singleton_append, ← List.append_assoc, List.take_left']
    simp
  have hdrop : (body ++ quote :: rest).drop (body.length + 1) = rest := by
    rw [← List.singleton_append, ← List.append_assoc, List.drop_left']
    simp
  have hscan : scan d.lexicon 0 quote (body ++ [quote] ++ rest) =
      (word (quote :: (body ++ [quote])), body.length + 1) := by
    rw [h.scan, scanDelimited, List.append_assoc, List.singleton_append, hbody]
    simp only [htake, h.word]
  rw [Dialect.words, Lexicon.words_of_ahead_cons (h.ahead _), hscan, List.append_assoc,
    List.singleton_append, htake, hdrop, Lexicon.countBare, if_neg (h.ne_bare _)]
  rfl

/-- A delimited name is one word in a dialect that has its delimiters. -/
theorem spellsName_delimited {d : Dialect} {quote : Char} (h : IsNameQuote d quote)
    (text : List Char) :
    SpellsName d (Dialect.delimited quote text) [.ofName (Dialect.delimited quote text)] := by
  intro rest hrest
  have hp : BreakFree (· == quote) := by
    rcases h with ⟨rfl, -⟩ | ⟨rfl, -⟩ <;> exact breakFree_of (by decide)
  have hdot : ('.' == quote) = false := by
    rcases h with ⟨rfl, -⟩ | ⟨rfl, -⟩ <;> rfl
  refine words_delimited h text fun head => ?_
  have apart := hrest.breakFree hp hdot quote head
  simp at apart

namespace Token

variable {cs rest : List Char}

theorem takeWhile_isDigit_run (hrest : EndsName rest) :
    (cs ++ rest).takeWhile Char.isDigit = cs.takeWhile Char.isDigit := by
  rcases hrest with h | ⟨tail, rfl, -⟩
  · exact takeWhile_append breakFree_isDigit h.breaks cs
  · induction cs with
    | nil => simp
    | cons c cs ih =>
      by_cases hc : c.isDigit
      · simp [hc, ih]
      · simp [hc]

theorem fractionOf_run (hcs : ∀ c ∈ cs, isWordChar c) (hrest : EndsName rest) :
    fractionOf (cs ++ rest) = fractionOf cs := by
  rcases hrest with h | ⟨tail, rfl, htail⟩
  · exact fractionOf_append h.breaks
  · cases cs with
    | nil =>
      cases tail with
      | nil => rfl
      | cons d tail =>
        have hd : d.isDigit = false := htail
        simp [fractionOf, hd]
    | cons c cs =>
      have hc : c ≠ '.' := ne_of_class (hcs c List.mem_cons_self) rfl
      simp [fractionOf, hc]

theorem exponentOf_run (hrest : EndsName rest) : exponentOf (cs ++ rest) = exponentOf cs := by
  rcases hrest with h | ⟨tail, rfl, htail⟩
  · exact exponentOf_append h.breaks
  · match cs with
    | [] => cases tail <;> simp [exponentOf]
    | [e] => simp [exponentOf]
    | e :: d :: cs =>
      have hrest : EndsName ('.' :: tail) := .inr ⟨tail, rfl, htail⟩
      simp only [List.cons_append, exponentOf]
      rw [takeWhile_isDigit_run hrest, ← List.cons_append, takeWhile_isDigit_run hrest]

/-- A number inside a row of letters and digits ends in front of what ends a name. -/
theorem scanNumber_run (hcs : ∀ c ∈ cs, isWordChar c) (hrest : EndsName rest) :
    scanNumber (cs ++ rest) = scanNumber cs := by
  have hsub (n : Nat) : ∀ c ∈ cs.drop n, isWordChar c :=
    fun c hc => hcs c (List.mem_of_mem_drop hc)
  unfold scanNumber
  simp only [takeWhile_isDigit_run hrest, drop_takeWhile_append, fractionOf_run (hsub _) hrest,
    List.drop_append_of_le_length (length_fractionOf_le _), exponentOf_run hrest]

/-- A character that neither begins a name nor is a digit is a symbol by itself. -/
theorem scan_symbol {lx : Lexicon} (hlx : lx.delimiter = []) {n : Nat} {c : Char}
    (hc : isWordChar c) (hname : isNameStart c = false) (hdigit : c.isDigit = false) :
    scan lx n c cs = (.symbol c, 0) := by
  have hne {k : Char} (hk : isWordChar k = false) : c ≠ k := ne_of_class hc hk
  have hx : c ≠ 'X' := fun h => by subst h; exact absurd hname (by decide)
  have hx' : c ≠ 'x' := fun h => by subst h; exact absurd hname (by decide)
  have hat : lx.atDelimiter (c :: cs) = false := by simp [Lexicon.atDelimiter, hlx]
  have hpunct : scanPunct lx c cs = (.symbol c, 0) := by
    apply scanPunct.eq_32
    all_goals first | exact fun h => hne rfl h | exact fun _ h _ => hne rfl h
  unfold scan
  simp only [commentLead_of_isWordChar hc, hat, hdigit, hx, hx', hne (k := '#') rfl, hne (k := '\'') rfl,
    hne (k := '"') rfl, hne (k := '\x60') rfl, hne (k := '.') rfl, hne (k := '$') rfl, decide_false,
    Bool.false_and, Bool.false_or, Bool.false_eq_true, if_false]
  rw [scanPlain, startsName_cons, hname]
  simp only [hne (k := '@') rfl, hne (k := '?') rfl, hne (k := ':') rfl, hne (k := '$') rfl, decide_false,
    Bool.false_and, Bool.false_or, Bool.false_eq_true, if_false, hpunct]
end Token

/-- The token that a row of letters and digits opens with, whatever ends the row. -/
theorem SpellsName.cons {d : Dialect} {c : Char} {cs : List Char} {kind : TokenKind} {n : Nat}
    {ws : List Word} (hc : isWordChar c) (hn : n ≤ cs.length)
    (hscan : ∀ rest, EndsName rest → scan d.lexicon 0 c (cs ++ rest) = (kind, n))
    (h : SpellsName d (cs.drop n) ws) : SpellsName d (c :: cs) (⟨kind, c :: cs.take n⟩ :: ws) := by
  intro rest hrest
  rw [List.cons_append, List.cons_append, ← h rest hrest]
  refine Dialect.words_cons (isBlank_of_isWordChar hc)
    (fun more => by simp [commentLead_of_isWordChar hc]) ?_ ?_ ?_
  · rw [← List.append_assoc, List.take_append_drop]
  · rw [hscan rest hrest, List.length_take, Nat.min_eq_left hn]
  · intro h
    injection h with h
    exact ne_of_class (k := '?') hc rfl h

/-- The word is a name, a keyword, a number or a symbol. -/
def Word.InRow (w : Word) : Prop :=
  (∃ cs, w.kind = word cs) ∨ (∃ cs whole, w.kind = number cs whole) ∨ ∃ c, w.kind = .symbol c

/-- A row of letters, digits and underscores is lexed as the same words whatever ends it. -/
theorem spellsName_run {d : Dialect} {cs : List Char} (hcs : ∀ c ∈ cs, isWordChar c) :
    ∃ ws, SpellsName d cs ws ∧ ∀ w ∈ ws, w.InRow := by
  induction hk : cs.length using Nat.strongRecOn generalizing cs with
  | ind k ih =>
    cases cs with
    | nil => exact ⟨[], fun _ _ => rfl, nofun⟩
    | cons c cs =>
      have hc : isWordChar c := hcs c List.mem_cons_self
      have hcs' : ∀ d ∈ cs, isWordChar d := fun d hd => hcs d (List.mem_cons_of_mem _ hd)
      have hdrop (n : Nat) : ∃ ws, SpellsName d (cs.drop n) ws ∧ ∀ w ∈ ws, w.InRow :=
        ih (cs.drop n).length (by rw [← hk, List.length_drop, List.length_cons]; omega)
          (fun d hd => hcs' d (List.mem_of_mem_drop hd)) rfl
      by_cases hname : isNameStart c
      · have hchars : ∀ e ∈ cs, isNameChar e := fun e he => by simp [isNameChar, hcs' e he]
        exact ⟨[.ofName (c :: cs)], .of_isPlainName ⟨hname, hchars⟩,
          List.forall_mem_singleton.2 (.inl ⟨_, rfl⟩)⟩
      · by_cases hdigit : c.isDigit
        · obtain ⟨ws, hws, hrow⟩ := hdrop (scanNumber (c :: cs)).2
          refine ⟨_, SpellsName.cons hc (scanNumber_le (c :: cs))
            (fun rest hrest => (?_ : _ = ((scanNumber (c :: cs)).1, _))) hws,
            List.forall_mem_cons.2 ⟨.inr (.inl ⟨_, _, rfl⟩), hrow⟩⟩
          rw [scan_of_isDigit d.lexicon_delimiter hdigit]
          exact scanNumber_run hcs hrest
        · obtain ⟨ws, hws, hrow⟩ := hdrop 0
          exact ⟨_, SpellsName.cons hc (Nat.zero_le _) (fun rest _ => scan_symbol
            d.lexicon_delimiter hc (Bool.eq_false_iff.2 hname) (Bool.eq_false_iff.2 hdigit)) hws,
            List.forall_mem_cons.2 ⟨.inr (.inr ⟨_, rfl⟩), hrow⟩⟩

namespace Dialect

/-- The delimiters that a dialect writes are among those that it reads. -/
theorem identifierQuote_cases (d : Dialect) : IsNameQuote d d.identifierQuote := by
  cases d <;> first | exact .inl ⟨rfl, rfl⟩ | exact .inr ⟨rfl, rfl⟩

/-- A name that the dialect takes for delimited stands between delimiters of some dialect. -/
theorem bareName?_ne_none {d : Dialect} {name : String} (h : d.isDelimited name) :
    bareName? name.toList ≠ none := by
  simp only [isDelimited, Bool.or_eq_true, Bool.and_eq_true] at h
  rcases h with h | ⟨-, h⟩ <;> simp [bareName?, stripped?, h]

/-- A name that needs no delimiters consists of letters, digits and underscores, begins with no ASCII
digit and is no reserved word. -/
theorem needsQuotes_eq_false {d : Dialect} {caseSensitive : Bool} {name : String}
    (h : d.needsQuotes caseSensitive name = false) :
    (∃ c cs, name.toList = c :: cs ∧ c.isDigit = false) ∧ (∀ x ∈ name.toList, isWordChar x) ∧
      d.isReservedWord name = false := by
  unfold needsQuotes at h
  split at h
  · cases h
  · rename_i c cs hname
    simp only [Bool.or_eq_false_iff] at h
    obtain ⟨⟨⟨digit, chars⟩, reserved⟩, -⟩ := h
    refine ⟨⟨c, cs, hname, digit⟩, fun x hx => ?_, reserved⟩
    rw [hname] at hx
    simpa using List.any_eq_false.1 chars x hx

/-- A name as it is written is either delimited or written as it is. -/
theorem writeName_cases (d : Dialect) (rule : QuotingRule) (name : String) :
    (∃ text, d.writeName rule name = String.ofList (delimited d.identifierQuote text)) ∨
      d.writeName rule name = name ∧ d.needsQuotes rule.caseSensitive name = false := by
  unfold writeName
  split
  · exact .inl ⟨_, rfl⟩
  · rename_i hbare
    unfold quoteWith
    split
    · rename_i h
      exact absurd hbare (bareName?_ne_none h)
    · split
      · exact .inl ⟨_, rfl⟩
      · rename_i h
        simp only [Bool.or_eq_true, not_or, Bool.not_eq_true] at h
        exact .inr ⟨rfl, h.2⟩

end Dialect

/-- A name as a dialect writes it is lexed as the same words whatever ends it, and begins with no
digit. None of the words is a placeholder. -/
theorem spellsName_writeName (d : Dialect) (rule : QuotingRule) (name : String) :
    ∃ ws, SpellsName d (d.writeName rule name).toList ws ∧
      startsDigit (d.writeName rule name).toList = false ∧ ∀ w ∈ ws, w.InRow := by
  rcases d.writeName_cases rule name with ⟨text, h⟩ | ⟨h, hneeds⟩
  · rw [h, String.toList_ofList]
    refine ⟨_, spellsName_delimited d.identifierQuote_cases text, ?_,
      List.forall_mem_singleton.2 (.inl ⟨_, rfl⟩)⟩
    rcases d.identifierQuote_cases with ⟨h, -⟩ | ⟨h, -⟩ <;> rw [h] <;> rfl
  · obtain ⟨⟨c, cs, hname, hdigit⟩, hrun, -⟩ := Dialect.needsQuotes_eq_false hneeds
    obtain ⟨ws, hws, hrow⟩ := spellsName_run (d := d) hrun
    rw [h]
    exact ⟨ws, hws, by rw [hname]; exact hdigit, hrow⟩

end BoundSql
