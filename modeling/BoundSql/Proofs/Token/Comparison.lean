import BoundSql.Proofs.Token.Trimmed

/-!
# Signs at the end of a text

A text that ends with a sign, such as the one in front of what is compared, ends with a token of
signs alone: `Lexer.mem_signWords`. As each token is as long as it can be, the characters in front of
it tell which one it is: `Lexer.bang_apart`, `Lexer.lt_apart`.
-/

namespace BoundSql

open Text Token

namespace Token

/-! ## Gaps in front of tokens -/

section Gaps

variable {hash : Bool} {c : Char} {text gap after : List Char}

/-- Right in front of a character that ends no line stands no line comment. -/
theorem Comment.exists_block (h : Comment hash text (c :: after)) (hc : c ≠ '\n') :
    ∃ content, text = '/' :: '*' :: (content ++ ['*', '/']) ∧
      ClosesComment 0 (content ++ ['*', '/']) ∧ isPlaceholderComment content = false := by
  cases h with
  | dashes _ ends => exact absurd (ends c rfl) hc
  | hash _ _ _ ends => exact absurd (ends c rfl) hc
  | @block content _ closes noParam => exact ⟨content, rfl, closes, noParam⟩

/-- A gap in front of a token ends with no sign. -/
theorem Gap.notLast (h : Gap hash gap (c :: after)) (hc : c ≠ '\n') : NotLast isSign gap := by
  generalize hafter : c :: after = behind at h
  induction h with
  | nil => exact notLast_nil
  | @blank b gap _ blank _ ih =>
    refine (ih hafter).cons ?_
    rw [Bool.eq_false_iff]
    intro sign
    simp only [isSign, Bool.or_eq_true, beq_iff_eq, or_assoc] at sign
    rcases sign with rfl | rfl | rfl | rfl <;> cases blank
  | @comment text gap _ comment _ ih =>
    subst hafter
    cases gap with
    | nil =>
      obtain ⟨content, rfl, -⟩ := comment.exists_block hc
      rw [List.append_nil]
      exact notLast_of_getLast? (k := '/') (by decide) (by simp [List.getLast?_cons])
    | cons d gap => exact (ih rfl).append_of_ne_nil (List.cons_ne_nil d gap) text

/-- A gap in front of a token is one in front of any text. -/
theorem Gap.anywhere (h : Gap hash gap (c :: after)) (hc : c ≠ '\n') (behind : List Char) :
    Gap hash gap behind := by
  generalize hafter : c :: after = first at h
  induction h with
  | nil => exact .nil
  | blank blank _ ih => exact .blank blank (ih hafter)
  | @comment text gap _ comment _ ih =>
    subst hafter
    refine .comment ?_ (ih rfl)
    cases gap with
    | nil =>
      obtain ⟨content, rfl, closes, noParam⟩ := comment.exists_block hc
      exact .block closes noParam
    | cons d gap => exact comment.replace rfl

/-- The words of a text do not depend on the gap that it begins with. -/
theorem Lexicon.words_gap {lx : Lexicon} (n : Nat) (h : Gap lx.dialect.hashComments gap after) :
    lx.words n (gap ++ after) = lx.words n after := by
  refine words_congr ?_
  rw [ahead, gapLength_of_gap h, List.drop_length_add_append]
  rfl

end Gaps

/-! ## Tokens of signs -/

/-- The tokens that end with a sign. -/
def signWords : List Word :=
  [.sign .eq "=", .sign .eq "==", .sign .ltEq "<=", .sign .gtEq ">=", .sign .notEq "!=",
    .sign .notEq "<>", .sign .lt "<", .sign .leftShift "<<", .sign .gt ">", .sign .rightShift ">>",
    ⟨.symbol '!', ['!']⟩]

theorem head_of_signWords :
    ∀ w ∈ signWords, w.kind ≠ .eof ∧ (w.lexeme.head?.map isSign) = some true := by
  decide

theorem bang_of_signWords : ∀ w ∈ signWords, w.lexeme.getLast? = some '!' → w.lexeme = ['!'] := by
  decide

theorem lt_of_signWords : ∀ w ∈ signWords, w.lexeme.getLast? = some '<' →
    w.lexeme = ['<'] ∨ w.lexeme = ['<', '<'] := by
  decide

section Scan

variable {lx : Lexicon} {n : Nat} {c z : Char} {cs : List Char}

theorem mem_signs (hz : isSign z) : z ∈ ['=', '<', '>', '!', '~', '|'] := by
  simp only [isSign, Bool.or_eq_true, beq_iff_eq, or_assoc] at hz
  rcases hz with rfl | rfl | rfl | rfl <;> decide

theorem mem_signWords_of_scanPunct (hz : isSign z)
    (last : (c :: cs.take (scanPunct lx c cs).2).getLast? = some z) :
    ⟨(scanPunct lx c cs).1, c :: cs.take (scanPunct lx c cs).2⟩ ∈ signWords := by
  have sign : z = '=' ∨ z = '<' ∨ z = '>' ∨ z = '!' := by
    simpa [isSign, or_assoc] using hz
  revert last
  fun_cases scanPunct lx c cs
  all_goals
    intro last
    first
      | simp_all [signWords, Word.sign]; done
      | obtain rfl := Option.some.inj last
        cases hz

/-- What is read and ends with a sign consists of signs. -/
theorem mem_signWords_of_scan (hlx : lx.delimiter = [])
    (hgap : ∀ m, commentLead lx.dialect.hashComments (c :: cs) ≠ .comment m)
    (sound : ∀ e, (scan lx n c cs).1 ≠ .error e) (hz : isSign z)
    (last : (c :: cs.take (scan lx n c cs).2).getLast? = some z) :
    ⟨(scan lx n c cs).1, c :: cs.take (scan lx n c cs).2⟩ ∈ signWords := by
  have punct : scan lx n c cs = scanPunct lx c cs := by
    refine (solid_scan hlx n hgap).elim (fun solid => ?_) id
    cases tail : cs.take (scan lx n c cs).2 with
    | nil =>
      -- The only character is the sign.
      rw [tail] at last
      cases last
      exact scan_of_sign hlx n (mem_signs hz)
    | cons d ds =>
      rw [tail, List.getLast?_cons_cons] at last
      have solid' := solid sound z (tail ▸ last)
      rw [isBreak_of_isSign hz] at solid'
      cases solid'
  rw [punct] at last ⊢
  exact mem_signWords_of_scanPunct hz last

/-- The words of a text without bare placeholders do not depend on how many stand in front of it. -/
theorem Lexicon.words_ordinal (h : '?' ∉ cs) (m : Nat) : lx.words n cs = lx.words m cs := by
  induction hk : cs.length using Nat.strongRecOn generalizing cs n m with
  | ind k ih =>
    cases ahead : lx.ahead cs with
    | nil => rw [words_of_ahead_nil ahead, words_of_ahead_nil ahead]
    | cons c tail =>
      have inside : ∀ d ∈ c :: tail, d ∈ cs := fun d hd => List.mem_of_mem_drop (ahead ▸ hd)
      have hc : c ≠ '?' := by
        rintro rfl
        exact h (inside _ List.mem_cons_self)
      have shorter : (tail.drop (scan lx m c tail).2).length < k := by
        have := lx.length_ahead_le cs
        rw [ahead, List.length_cons] at this
        rw [List.length_drop]
        omega
      have plain : '?' ∉ tail.drop (scan lx m c tail).2 := fun member =>
        h (inside _ (List.mem_cons_of_mem c (List.mem_of_mem_drop member)))
      rw [words_of_ahead_cons ahead, words_of_ahead_cons ahead, scan_ordinal hc m,
        ih _ shorter plain _ rfl]

end Scan

end Token

namespace Lexer

variable {l : Lexer} {ts more : List Token} {t u : Token} {z : Char}

/-- A token that ends with a sign consists of signs. -/
theorem mem_signWords (hlx : l.lexicon.delimiter = []) (h : l.tokens = ts ++ t :: more)
    (kind : t.kind ≠ .eof) (sound : ∀ e, t.kind ≠ .error e) (hz : isSign z)
    (last : t.lexeme.getLast? = some z) : t.toWord ∈ signWords := by
  obtain ⟨n, c, cs, -, -, hgap, scanned, lexeme⟩ := scanned_of_tokens h kind
  rw [scanned] at sound
  rw [lexeme] at last
  rw [toWord, scanned, lexeme]
  exact mem_signWords_of_scan hlx hgap sound hz last

/-- A gap in front of a token stands in front of any text, and ends with no sign. -/
theorem gap_of_tokens (h : l.tokens = ts ++ t :: more) (kind : t.kind ≠ .eof) :
    NotLast isSign t.gap ∧ ∀ behind, Gap l.lexicon.dialect.hashComments t.gap behind := by
  have tiles := l.tiles
  rw [h] at tiles
  have gap := tiles.behind.head.2
  obtain ⟨n, c, cs, text, solid, -⟩ := scanned_of_tokens h kind
  have newline : c ≠ '\n' := by
    rintro rfl
    cases solid
  rw [text] at gap
  exact ⟨gap.notLast newline, gap.anywhere newline⟩

/-- The last character of the tokens in front of a token is that of the last one. -/
theorem exists_last (h : l.tokens = ts ++ t :: more)
    (last : (ts.flatMap source).getLast? = some z) :
    ∃ front u, ts = front ++ [u] ∧ l.tokens = front ++ u :: t :: more ∧ u.kind ≠ .eof ∧
      u.lexeme.getLast? = some z := by
  rcases List.eq_nil_or_concat ts with rfl | ⟨front, u, rfl⟩
  · cases last
  · rw [List.concat_eq_append] at h last ⊢
    have kind : u.kind ≠ .eof := ne_eof_of_tokens h (by simp)
    have read : l.tokens = front ++ u :: t :: more := by simpa using h
    obtain ⟨n, c, cs, -, -, -, -, lexeme⟩ := scanned_of_tokens read kind
    refine ⟨front, u, rfl, read, kind, ?_⟩
    rw [List.flatMap_append, List.flatMap_singleton, source, ← List.append_assoc,
      List.getLast?_append, lexeme, List.getLast?_cons, Option.some_or] at last
    rwa [lexeme, List.getLast?_cons]

/-- A sign right in front of a token belongs to the token in front of it, and no gap lies between. -/
theorem exists_sign_before (h : l.tokens = ts ++ t :: more) (kind : t.kind ≠ .eof) (hz : isSign z)
    (last : (ts.flatMap source ++ t.gap).getLast? = some z) :
    t.gap = [] ∧ ∃ front u, ts = front ++ [u] ∧ l.tokens = front ++ u :: t :: more ∧
      u.kind ≠ .eof ∧ u.lexeme.getLast? = some z := by
  have empty : t.gap = [] := by
    by_contra filled
    have apart := (gap_of_tokens h kind).1.append_of_ne_nil filled (ts.flatMap source) z last
    rw [hz] at apart
    cases apart
  rw [empty, List.append_nil] at last
  exact ⟨empty, exists_last h last⟩

/-- A token that is one sign is no longer with the first character of the next token. -/
theorem scanPunct_of_single (hlx : l.lexicon.delimiter = []) (h : l.tokens = ts ++ u :: t :: more)
    (kind : u.kind ≠ .eof) (empty : t.gap = []) {x y : Char} (hx : isSign x)
    (single : u.lexeme = [x]) (head : t.lexeme.head? = some y) :
    ∃ cs, ((y :: cs).take (scanPunct l.lexicon x (y :: cs)).2) = [] := by
  obtain ⟨n, c, cs, text, -, -, -, lexeme⟩ := scanned_of_tokens h kind
  obtain ⟨tail, spelled⟩ := List.head?_eq_some_iff.1 head
  rw [single, List.flatMap_cons, source, empty, spelled, List.nil_append, List.singleton_append,
    List.cons_append, List.cons.injEq] at text
  obtain ⟨rfl, rfl⟩ := text
  rw [single, scan_of_sign hlx n (mem_signs hx), List.cons.injEq] at lexeme
  exact ⟨_, lexeme.2.symm⟩

/-- No sign of equality stands right behind a `!` of another token. -/
theorem bang_apart (hlx : l.lexicon.delimiter = []) (h : l.tokens = ts ++ t :: more)
    (sound : ∀ u ∈ ts, ∀ e, u.kind ≠ .error e) (kind : t.kind ≠ .eof)
    (last : (ts.flatMap source ++ t.gap).getLast? = some '!') : t.lexeme.head? ≠ some '=' := by
  intro head
  obtain ⟨empty, front, u, rfl, read, uKind, bang⟩ := exists_sign_before h kind (by decide) last
  have member := mem_signWords hlx read uKind (sound u (by simp)) (by decide) bang
  have single : u.lexeme = ['!'] := bang_of_signWords _ member bang
  obtain ⟨cs, short⟩ := scanPunct_of_single hlx read uKind empty (by decide) single head
  simp [scanPunct] at short

/-- A `>` stands right behind a `<` of another token only if this is a `<<`. -/
theorem lt_apart (hlx : l.lexicon.delimiter = []) (h : l.tokens = ts ++ t :: more)
    (sound : ∀ u ∈ ts, ∀ e, u.kind ≠ .error e) (kind : t.kind ≠ .eof)
    (last : (ts.flatMap source ++ t.gap).getLast? = some '<') (head : t.lexeme.head? = some '>') :
    t.gap = [] ∧ ∃ front u, ts = front ++ [u] ∧ u.lexeme = ['<', '<'] := by
  obtain ⟨empty, front, u, rfl, read, uKind, lt⟩ := exists_sign_before h kind (by decide) last
  have member := mem_signWords hlx read uKind (sound u (by simp)) (by decide) lt
  refine ⟨empty, front, u, rfl, (lt_of_signWords _ member lt).resolve_left fun single => ?_⟩
  obtain ⟨cs, short⟩ := scanPunct_of_single hlx read uKind empty (by decide) single head
  simp [scanPunct] at short

/-- Where a token of signs gives way to another text, with a blank in front, the words in front of it
stay. -/
theorem words_replaced {between test : List Char} (hlx : l.lexicon.delimiter = [])
    (h : l.tokens = ts ++ t :: more) (sound : ∀ u ∈ ts, ∀ e, u.kind ≠ .error e)
    (word : t.toWord ∈ signWords)
    (apart : between = [' '] ∨ between = [] ∧ ∃ front b, t.gap = front ++ [b] ∧ isBlank b)
    (plain : '?' ∉ test) (n : Nat) :
    l.lexicon.words l.ordinal (ts.flatMap source ++ t.gap ++ between ++ test) =
      ts.map toWord ++ l.lexicon.words n test := by
  obtain ⟨kind, sign⟩ : t.kind ≠ .eof ∧ (t.lexeme.head?.map isSign) = some true :=
    head_of_signWords _ word
  -- The lexer reads the same tokens up to the blank in front of the text.
  obtain ⟨front, b, tail, spelled, gap, blank, ends⟩ : ∃ front b tail,
      t.gap ++ (between ++ test) = front ++ tail ∧ t.gap = front ++ b ∧ AllBlank b ∧ Ends tail := by
    rcases apart with rfl | ⟨rfl, front, b, gap, blank⟩
    · exact ⟨t.gap, [], ' ' :: test, rfl, (List.append_nil _).symm, nofun, ends_cons (by decide) _⟩
    · exact ⟨front, [b], b :: test, by rw [gap]; simp, gap, by simpa [AllBlank] using blank,
        ends_cons (isStop_of_isBlank blank) _⟩
  have stop : Breaks (b ++ (t.lexeme ++ more.flatMap source)) := by
    cases b with
    | nil =>
      obtain ⟨z, head, hz⟩ := Option.map_eq_some_iff.1 sign
      obtain ⟨lexeme, spelled⟩ := List.head?_eq_some_iff.1 head
      intro c hc
      rw [spelled] at hc
      cases hc
      exact isBreak_of_isSign hz
    | cons c b => exact (ends_cons (isStop_of_isBlank (blank c List.mem_cons_self)) _).breaks
  have split : t.source ++ more.flatMap source =
      front ++ (b ++ (t.lexeme ++ more.flatMap source)) := by
    rw [source, gap]
    simp
  obtain ⟨l', lexicon, -, -, onto⟩ := exists_behind hlx h
    (fun u hu => ⟨ne_eof_of_tokens h hu, sound u hu⟩) stop split
  -- What is left for it is the gap and the text.
  have left : l'.lexicon.words l'.ordinal (front ++ tail) = l.lexicon.words n test := by
    rw [← spelled, lexicon, Lexicon.words_gap _ ((gap_of_tokens h kind).2 _)]
    rcases apart with rfl | ⟨rfl, -⟩
    · exact (Lexicon.words_blank _ _ (by decide) test).trans (Lexicon.words_ordinal plain n)
    · exact Lexicon.words_ordinal plain n
  have whole : ts.flatMap source ++ t.gap ++ between ++ test =
      ts.flatMap source ++ front ++ tail := by
    simp only [List.append_assoc, spelled]
  have words := toWord_tokens (l.onto (ts.flatMap source ++ front ++ tail))
  rw [onto tail ends, List.map_append, toWord_tokens, ← List.append_assoc] at words
  rw [whole, ← left]
  exact (List.append_cancel_right words).symm

end Lexer

end BoundSql
