import BoundSql.Proofs.Token.Locality

/-!
# Texts that spell words

A text spells words if it is lexed as them in front of any stop. Texts that spell words can be put
together where the second one begins with a stop, or where the first one is a parenthesis.
-/

namespace BoundSql

open Text Token

namespace Token.Lexicon

variable {lx : Lexicon} {n : Nat} {c : Char} {cs lexeme rest : List Char} {kind : TokenKind}

theorem gapLength_cons {hash : Bool} (solid : isBlank c = false)
    (lead : ∀ more, commentLead hash (c :: cs) ≠ .comment more) :
    gapLength hash 0 (c :: cs) = 0 := by
  rw [gapLength, solid]
  simp only [Bool.false_eq_true, if_false]

/-- A text that begins with neither a blank nor a comment begins with a word. -/
theorem ahead_cons (solid : isBlank c = false)
    (lead : ∀ more, commentLead lx.dialect.hashComments (c :: cs) ≠ .comment more) :
    lx.ahead (c :: cs) = c :: cs := by
  rw [ahead, gapLength_cons solid lead, List.drop_zero]

/-- The token that a text opens with, and those behind it. -/
theorem words_token (solid : isBlank c = false)
    (lead : ∀ more, commentLead lx.dialect.hashComments (c :: (lexeme ++ rest)) ≠ .comment more)
    (scanned : scan lx n c (lexeme ++ rest) = (kind, lexeme.length)) :
    lx.words n (c :: (lexeme ++ rest)) =
      ⟨kind, c :: lexeme⟩ :: lx.words (countBare n (c :: lexeme)) rest := by
  rw [words_of_ahead_cons (ahead_cons solid lead), scanned, List.take_left, List.drop_left]

end Token.Lexicon

/-- The token that a text opens with, at its place, and those behind it. -/
theorem Lexer.tokens_of_scan {l : Lexer} {c : Char} {lexeme rest : List Char} {kind : TokenKind}
    (text : l.rest = c :: (lexeme ++ rest)) (solid : isBlank c = false)
    (lead : ∀ more,
      commentLead l.lexicon.dialect.hashComments (c :: (lexeme ++ rest)) ≠ .comment more)
    (scanned : scan l.lexicon l.ordinal c (lexeme ++ rest) = (kind, lexeme.length)) :
    l.tokens = ⟨kind, [], c :: lexeme, l.pos⟩ ::
      (Lexer.mk l.lexicon rest (l.pos.after (c :: lexeme))
        (Lexicon.countBare l.ordinal (c :: lexeme))).tokens := by
  have ahead : l.lexicon.ahead l.rest = c :: (lexeme ++ rest) := by
    rw [text, Lexicon.ahead_cons solid lead]
  have gap : l.gap = [] := by
    rw [Lexer.gap, Lexer.gapLength, text, Lexicon.gapLength_cons solid lead, List.take_zero]
  rw [tokens_of_ne_eof (kind_next_ne_eof ahead), next_of_scan ahead scanned, cut, tokenPos, gap,
    List.take_left, List.drop_left]
  rfl

namespace Dialect

/-- The lexical rules of a dialect with the usual delimiter. -/
def lexicon (d : Dialect) : Lexicon := { dialect := d }

@[simp] theorem lexicon_delimiter (d : Dialect) : d.lexicon.delimiter = [] := rfl

@[simp] theorem lexicon_dialect (d : Dialect) : d.lexicon.dialect = d := rfl

@[simp] theorem lexicon_atDelimiter (d : Dialect) (cs : List Char) :
    d.lexicon.atDelimiter cs = false := rfl

/-- The words of a text in a dialect. -/
def words (d : Dialect) (cs : List Char) : List Word := d.lexicon.words 0 cs

/-- The token that a text opens with, unless it is a bare placeholder, and those behind it. -/
theorem words_cons {d : Dialect} {c : Char} {cs lexeme rest : List Char} {kind : TokenKind}
    (hblank : isBlank c = false)
    (hlead : ∀ more, commentLead d.hashComments (c :: cs) ≠ .comment more)
    (hcs : cs = lexeme ++ rest) (hscan : scan d.lexicon 0 c cs = (kind, lexeme.length))
    (hbare : c :: lexeme ≠ ['?']) :
    d.words (c :: cs) = ⟨kind, c :: lexeme⟩ :: d.words rest := by
  subst hcs
  rw [words, Lexicon.words_token hblank hlead hscan, Lexicon.countBare, if_neg hbare]
  rfl

/-- A sign that is one token by itself, whatever follows. -/
theorem words_sign {d : Dialect} {c : Char} {p : Punct} (hblank : isBlank c = false) (hbare : c ≠ '?')
    (hlead : ∀ rest more, commentLead d.hashComments (c :: rest) ≠ .comment more)
    (hscan : ∀ rest, scan d.lexicon 0 c rest = (.punct p, 0)) (cs : List Char) :
    d.words (c :: cs) = ⟨.punct p, [c]⟩ :: d.words cs :=
  @words_cons d c _ [] _ _ hblank (hlead _) rfl (hscan _) (by simpa using hbare)

section Signs

variable {d : Dialect} (cs : List Char)

theorem words_leftParen : d.words ('(' :: cs) = ⟨.punct .leftParen, ['(']⟩ :: d.words cs :=
  words_sign rfl (by decide) (fun _ _ => by simp [commentLead]) (fun _ => rfl) cs

theorem words_rightParen : d.words (')' :: cs) = ⟨.punct .rightParen, [')']⟩ :: d.words cs :=
  words_sign rfl (by decide) (fun _ _ => by simp [commentLead]) (fun _ => rfl) cs

theorem words_comma : d.words (',' :: cs) = ⟨.punct .comma, [',']⟩ :: d.words cs :=
  words_sign rfl (by decide) (fun _ _ => by simp [commentLead]) (fun _ => rfl) cs

/-- A tilde that is no part of a matching operator. -/
theorem words_bitNot (hd : d.regexpOperators = false) :
    d.words ('~' :: cs) = ⟨.punct .bitNot, ['~']⟩ :: d.words cs := by
  refine words_sign rfl (by decide) (fun _ _ => by simp [commentLead]) (fun rest => ?_) cs
  have hscan : scan d.lexicon 0 '~' rest = scanPunct d.lexicon '~' rest := rfl
  rw [hscan]
  unfold scanPunct
  split <;> simp_all

end Signs

/-- A minus sign is one token in front of anything but another one. -/
theorem words_minus {d : Dialect} {cs : List Char} (apart : cs.head? ≠ some '-') (n : Nat) :
    d.lexicon.words n ('-' :: cs) = ⟨.punct .minus, ['-']⟩ :: d.lexicon.words n cs := by
  have lead : commentLead d.lexicon.dialect.hashComments ('-' :: cs) = .none := by
    cases cs with
    | nil => rfl
    | cons c cs =>
      have other : c ≠ '-' := fun same => apart (congrArg some same)
      simp [commentLead, other]
  have scanned : scan d.lexicon n '-' ([] ++ cs) = (.punct .minus, 0) := by
    unfold scan
    rw [List.nil_append, lead]
    rfl
  have noComment (more : Nat) : commentLead d.lexicon.dialect.hashComments ('-' :: ([] ++ cs)) ≠
      .comment more := by
    rw [List.nil_append, lead]
    simp
  have token := Lexicon.words_token rfl noComment scanned
  exact token

end Dialect

namespace Token

variable {cs ds : List Char}

theorem Ends.append (hcs : Ends cs) (hds : Ends ds) : Ends (cs ++ ds) := by
  cases cs with
  | nil => exact hds
  | cons c cs => exact ends_cons hcs.isStop _

/-- What begins with no minus sign does so with a stop behind it. -/
theorem Ends.head?_append (hds : Ends ds) (hcs : cs.head? ≠ some '-') :
    (cs ++ ds).head? ≠ some '-' := by
  cases cs with
  | nil =>
    intro dash
    cases hds '-' dash
  | cons c cs => exact hcs

end Token

/-- In front of any stop the text is lexed as these words, none of which is a bare placeholder. -/
def Spells (d : Dialect) (cs : List Char) (ws : List Word) : Prop :=
  ∀ rest, Ends rest → d.words (cs ++ rest) = ws ++ d.words rest

namespace Spells

variable {d : Dialect} {cs ds : List Char} {ws vs : List Word}

theorem words_eq (h : Spells d cs ws) : d.words cs = ws := by
  have := h [] ends_nil
  simpa [Dialect.words] using this

theorem nil : Spells d [] [] := fun _ _ => rfl

theorem append (h : Spells d cs ws) (h' : Spells d ds vs) (hends : Ends ds) :
    Spells d (cs ++ ds) (ws ++ vs) := by
  intro rest hrest
  rw [List.append_assoc, h _ (hends.append hrest), h' _ hrest, List.append_assoc]

/-- A blank in front of a text spells nothing. -/
theorem blank {c : Char} (hc : isBlank c) (h : Spells d ds vs) : Spells d (c :: ds) vs := by
  intro rest hrest
  rw [← h rest hrest]
  exact Lexicon.words_blank _ _ hc _

/-- A text in front of which there is one more token, whatever it is. -/
theorem token {c : Char} {w : Word} (htoken : ∀ cs, d.words (c :: cs) = w :: d.words cs)
    (h : Spells d ds vs) : Spells d (c :: ds) (w :: vs) := by
  intro rest hrest
  rw [List.cons_append, List.cons_append, ← h rest hrest]
  exact htoken _

theorem leftParen (h : Spells d ds vs) :
    Spells d ('(' :: ds) (⟨.punct .leftParen, ['(']⟩ :: vs) := h.token Dialect.words_leftParen

theorem rightParen (h : Spells d ds vs) :
    Spells d (')' :: ds) (⟨.punct .rightParen, [')']⟩ :: vs) := h.token Dialect.words_rightParen

theorem comma (h : Spells d ds vs) : Spells d (',' :: ds) (⟨.punct .comma, [',']⟩ :: vs) :=
  h.token Dialect.words_comma

/-- A minus sign in front of anything but another one. -/
theorem minus (hds : ds.head? ≠ some '-') (h : Spells d ds vs) :
    Spells d ('-' :: ds) (⟨.punct .minus, ['-']⟩ :: vs) := by
  intro rest hrest
  rw [List.cons_append, List.cons_append, ← h rest hrest]
  exact Dialect.words_minus (hrest.head?_append hds) 0

end Spells

/-- In front of any stop the text is lexed as words of which `f` shows this. -/
def Shows {α : Type} (f : Word → α) (d : Dialect) (cs : List Char) (shown : List α) : Prop :=
  ∀ rest, Ends rest → (d.words (cs ++ rest)).map f = shown ++ (d.words rest).map f

theorem Spells.shows {α : Type} {f : Word → α} {d : Dialect} {cs : List Char} {ws : List Word}
    (h : Spells d cs ws) : Shows f d cs (ws.map f) :=
  fun rest hrest => by rw [h rest hrest, List.map_append]

namespace Shows

variable {α : Type} {f : Word → α} {d : Dialect} {cs ds : List Char} {shown more : List α}

/-- With nothing hidden, the words are shown. -/
theorem spells {ws : List Word} (h : Shows id d cs ws) : Spells d cs ws := by
  intro rest hrest
  have words := h rest hrest
  rwa [List.map_id, List.map_id] at words

theorem words_eq (h : Shows f d cs shown) : (d.words cs).map f = shown := by
  have alone := h [] ends_nil
  simpa [Dialect.words] using alone

theorem nil : Shows f d [] [] := fun _ _ => rfl

theorem append (h : Shows f d cs shown) (h' : Shows f d ds more) (hends : Ends ds) :
    Shows f d (cs ++ ds) (shown ++ more) := by
  intro rest hrest
  rw [List.append_assoc, h _ (hends.append hrest), h' _ hrest, List.append_assoc]

/-- A blank in front of a text shows nothing. -/
theorem blank {c : Char} (hc : isBlank c) (h : Shows f d ds more) : Shows f d (c :: ds) more := by
  intro rest hrest
  rw [← h rest hrest]
  exact congrArg (List.map f) (Lexicon.words_blank _ _ hc _)

/-- A text in front of which there is one more token, whatever it is. -/
theorem token {c : Char} {w : Word} (htoken : ∀ cs, d.words (c :: cs) = w :: d.words cs)
    (h : Shows f d ds more) : Shows f d (c :: ds) (f w :: more) := by
  intro rest hrest
  rw [List.cons_append, htoken, List.map_cons, h rest hrest, List.cons_append]

/-- A minus sign in front of anything but another one. -/
theorem minus (hds : ds.head? ≠ some '-') (h : Shows f d ds more) :
    Shows f d ('-' :: ds) (f ⟨.punct .minus, ['-']⟩ :: more) := by
  intro rest hrest
  have token : d.words ('-' :: (ds ++ rest)) = ⟨.punct .minus, ['-']⟩ :: d.words (ds ++ rest) :=
    Dialect.words_minus (hrest.head?_append hds) 0
  rw [List.cons_append, token, List.map_cons, h rest hrest, List.cons_append]

end Shows

end BoundSql
