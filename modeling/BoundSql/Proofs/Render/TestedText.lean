import BoundSql.Proofs.Render.Uncompared
import BoundSql.Proofs.Token.Comparison

/-!
# Tests for NULL in kept text

In a statement that is kept as text, the comparison in front of a parameter that is NULL is told from
the characters in front of it, not from its token. Where these are the characters of a whole token
(`Token.WholeSigns`), the rewriting replaces just this token by the test and takes the parameter away:
`Statement.Parsed.testForNulls_of_removes`.
-/

namespace BoundSql

open Text Token

/-- The test for NULL that stands for a comparison with NULL. -/
def TokenKind.nullTest? : TokenKind → Option Operator
  | .punct .eq => some .isNull
  | .punct .notEq => some .isNotNull
  | _ => none

theorem TokenKind.nullTest?_eq_some {kind : TokenKind} {test : Operator}
    (h : kind.nullTest? = some test) : test = .isNull ∨ test = .isNotNull := by
  unfold nullTest? at h
  split at h <;> cases h
  · exact .inl rfl
  · exact .inr rfl

/-- A sign that another one may follow in a comparison. -/
def Token.isLead (c : Char) : Bool := isSign c && c != '='

namespace Fragment

/-- What a comparison at the end of a text consists of, and what cannot stand in front of it. -/
theorem splitComparison?_eq_some {text kept : List Char} {test : String}
    (h : splitComparison? text = some (kept, test)) :
    (trimEnd text = kept ++ ['!', '='] ∨ trimEnd text = kept ++ ['<', '>']) ∧
        test = Operator.isNotNull.sql ∨
      trimEnd text = kept ++ ['='] ∧ test = Operator.isNull.sql ∧
        NotLast isLead kept := by
  have back {rest : List Char} (spelled : (trimEnd text).reverse = rest) :
      trimEnd text = rest.reverse := by
    rw [← spelled, List.reverse_reverse]
  unfold splitComparison? at h
  split at h
  · rename_i spelled
    cases h
    exact .inl ⟨.inl (by simp [back spelled]), rfl⟩
  · rename_i spelled
    cases h
    exact .inl ⟨.inr (by simp [back spelled]), rfl⟩
  · cases h
  · cases h
  · cases h
  · rename_i rest bang lt gt _ spelled
    cases h
    refine .inr ⟨by simp [back spelled], rfl, fun c last => ?_⟩
    rw [List.getLast?_reverse] at last
    obtain ⟨tail, rfl⟩ := List.head?_eq_some_iff.1 last
    have other : c ≠ '!' ∧ c ≠ '<' ∧ c ≠ '>' :=
      ⟨fun same => bang tail (by rw [same]), fun same => lt tail (by rw [same]),
        fun same => gt tail (by rw [same])⟩
    simp [isLead, isSign, other]
  · cases h

/-- Of the two signs of `==` only one is taken for the comparison. -/
example : testForNull? "id == " = some "id = IS NULL" := by decide

end Fragment

namespace Token

/-- The signs at the end of the tokens, in front of a gap, are those of a whole token that compares:
no comment in the gap ends with a sign, the last token is no `==`, and it is no `>` right behind a
`<<`. -/
structure WholeSigns (ts : List Token) (gap : List Char) : Prop where
  comment : NotLast isSign (trimEnd gap)
  double : ∀ t, ts.getLast? = some t → t.lexeme ≠ ['=', '=']
  shift : ∀ front u t, ts = front ++ [u, t] → u.lexeme = ['<', '<'] → t.lexeme = ['>'] → t.gap ≠ []

/-- Signs stand for themselves where only blanks and neither `==` nor `<<` stand in front. -/
theorem WholeSigns.of_blanks {ts : List Token} {gap : List Char} (blank : AllBlank gap)
    (plain : ∀ t ∈ ts, t.lexeme ≠ ['=', '='] ∧ t.lexeme ≠ ['<', '<']) : WholeSigns ts gap where
  comment := by
    rw [← List.nil_append gap, trimEnd_of_allBlank blank]
    exact notLast_nil
  double t last := (plain t (List.mem_of_getLast? last)).1
  shift front u t split twice := absurd twice (plain u (by simp [split])).2

theorem eq_of_signWords : ∀ w ∈ signWords, w.lexeme.getLast? = some '=' →
    w = .sign .eq "=" ∨ w.lexeme = ['=', '='] ∨ w = .sign .notEq "!=" ∨
      w.lexeme = ['<', '='] ∨ w.lexeme = ['>', '='] := by
  decide

theorem gt_of_signWords : ∀ w ∈ signWords, w.lexeme.getLast? = some '>' →
    w = .sign .notEq "<>" ∨ w.lexeme = ['>'] ∨ w.lexeme = ['>', '>'] := by
  decide

end Token

/-- A text that ends with a sign in front of a gap without one ends in front of the gap. -/
theorem Text.eq_of_sign {text gap front t : List Char} {z : Char} (trimmed : Trimmed text)
    (clear : NotLast isSign (trimEnd gap)) (spelled : text ++ gap = front ++ t) (hz : isSign z)
    (last : (trimEnd t).getLast? = some z) : text = front ++ trimEnd t := by
  have filled : trimEnd t ≠ [] := by
    intro empty
    rw [empty] at last
    cases last
  have cut : trimEnd (front ++ t) = front ++ trimEnd t := by
    obtain ⟨b, blank, split⟩ := exists_blanks t
    have whole : front ++ t = front ++ trimEnd t ++ b := by rw [List.append_assoc, ← split]
    rw [whole, trimEnd_of_allBlank blank,
      trimEnd_of_trimmed ((trimmed_trimEnd t).append_of_ne_nil filled front)]
  have whole : text ++ trimEnd gap = front ++ trimEnd t := by
    rw [← trimEnd_append trimmed, spelled, cut]
  by_cases empty : trimEnd gap = []
  · rw [← whole, empty, List.append_nil]
  · have end_ : (text ++ trimEnd gap).getLast? = some z := by
      rw [whole, List.getLast?_append, last, Option.some_or]
    have apart := clear.append_of_ne_nil empty text z end_
    rw [hz] at apart
    cases apart

namespace Lexer

open Fragment

variable {l : Lexer} {us more : List Token} {next : Token} {front kept t : List Char}
  {test : String}

section Last

variable {K : List Char}

/-- What ends with a sign ends with a token of signs. -/
theorem exists_last_sign (hlx : l.lexicon.delimiter = []) (h : l.tokens = us ++ next :: more)
    (sound : ∀ u ∈ us, ∀ e, u.kind ≠ .error e) {sign : List Char} {z : Char}
    (hz : isSign z) (last : sign.getLast? = some z) (spelled : us.flatMap source = K ++ sign) :
    ∃ ts op, us = ts ++ [op] ∧ l.tokens = ts ++ op :: next :: more ∧ op.kind ≠ .eof ∧
      op.lexeme.getLast? = some z ∧ op.toWord ∈ signWords ∧
      ts.flatMap source ++ op.gap ++ op.lexeme = K ++ sign := by
  have sourceLast : (us.flatMap source).getLast? = some z := by
    rw [spelled, List.getLast?_append, last, Option.some_or]
  obtain ⟨ts, op, rfl, read, kind, lastSign⟩ := exists_last h sourceLast
  have member := mem_signWords hlx read kind (sound op (by simp)) hz lastSign
  refine ⟨ts, op, rfl, read, kind, lastSign, member, ?_⟩
  rw [← spelled, List.flatMap_append, List.flatMap_singleton, source, List.append_assoc]

/-- What ends with the sign of equality and no longer comparison ends with the token of equality. -/
theorem exists_eq (hlx : l.lexicon.delimiter = []) (h : l.tokens = us ++ next :: more)
    (sound : ∀ u ∈ us, ∀ e, u.kind ≠ .error e)
    (double : ∀ t, us.getLast? = some t → t.lexeme ≠ ['=', '='])
    (spelled : us.flatMap source = K ++ ['=']) (lead : NotLast isLead K) :
    ∃ ts op, us = ts ++ [op] ∧ K = ts.flatMap source ++ op.gap ∧ op.toWord = .sign .eq "=" := by
  obtain ⟨ts, op, rfl, -, -, last, member, text⟩ :=
    exists_last_sign hlx h sound (z := '=') (by decide) rfl spelled
  -- In front of a longer token that ends with the sign stands no other one.
  have short {c : Char} (hc : isLead c) : op.lexeme ≠ [c, '='] := by
    intro long
    rw [long] at text
    have split : ts.flatMap source ++ op.gap ++ [c] ++ ['='] = K ++ ['='] := by simpa using text
    have other : ts.flatMap source ++ op.gap ++ [c] = K := List.append_cancel_right split
    have solid := lead c (by rw [← other, List.getLast?_concat])
    rw [hc] at solid
    cases solid
  refine ⟨ts, op, rfl, ?_⟩
  rcases eq_of_signWords _ member last with eq | twice | notEq | ltEq | gtEq
  · have sign : op.lexeme = ['='] := congrArg Word.lexeme eq
    rw [sign] at text
    exact ⟨(List.append_cancel_right text).symm, eq⟩
  · exact absurd twice (double op List.getLast?_concat)
  · exact absurd (congrArg Word.lexeme notEq) (short (by decide))
  · exact absurd ltEq (short (by decide))
  · exact absurd gtEq (short (by decide))

/-- What ends with `!=` ends with this token. -/
theorem exists_notEq (hlx : l.lexicon.delimiter = []) (h : l.tokens = us ++ next :: more)
    (sound : ∀ u ∈ us, ∀ e, u.kind ≠ .error e)
    (spelled : us.flatMap source = K ++ ['!', '=']) :
    ∃ ts op, us = ts ++ [op] ∧ K = ts.flatMap source ++ op.gap ∧ op.toWord = .sign .notEq "!=" := by
  obtain ⟨ts, op, rfl, read, kind, last, member, text⟩ :=
    exists_last_sign hlx h sound (z := '=') (by decide) rfl spelled
  refine ⟨ts, op, rfl, ?_⟩
  have other {c : Char} (hc : c ≠ '!') : op.lexeme ≠ [c, '='] := by
    intro long
    rw [long] at text
    have same := (List.append_inj' text rfl).2
    simp only [List.cons.injEq, and_true] at same
    exact hc same
  rcases eq_of_signWords _ member last with eq | twice | notEq | ltEq | gtEq
  · have sign : op.lexeme = ['='] := congrArg Word.lexeme eq
    rw [sign] at text
    have split : ts.flatMap source ++ op.gap ++ ['='] = K ++ ['!'] ++ ['='] := by simpa using text
    have bang : ts.flatMap source ++ op.gap = K ++ ['!'] := List.append_cancel_right split
    have apart := bang_apart hlx read (fun u hu => sound u (List.mem_append_left _ hu)) kind
      (by rw [bang, List.getLast?_concat])
    exact absurd (by rw [sign]; rfl) apart
  · exact absurd twice (other (by decide))
  · have sign : op.lexeme = ['!', '='] := congrArg Word.lexeme notEq
    rw [sign] at text
    exact ⟨(List.append_cancel_right text).symm, notEq⟩
  · exact absurd ltEq (other (by decide))
  · exact absurd gtEq (other (by decide))

/-- What ends with `<>` ends with this token, or with a `>` right behind a `<<`. -/
theorem exists_diff (hlx : l.lexicon.delimiter = []) (h : l.tokens = us ++ next :: more)
    (sound : ∀ u ∈ us, ∀ e, u.kind ≠ .error e)
    (shift : ∀ front u t, us = front ++ [u, t] → u.lexeme = ['<', '<'] → t.lexeme = ['>'] →
      t.gap ≠ [])
    (spelled : us.flatMap source = K ++ ['<', '>']) :
    ∃ ts op, us = ts ++ [op] ∧ K = ts.flatMap source ++ op.gap ∧ op.toWord = .sign .notEq "<>" := by
  obtain ⟨ts, op, rfl, read, kind, last, member, text⟩ :=
    exists_last_sign hlx h sound (z := '>') (by decide) rfl spelled
  refine ⟨ts, op, rfl, ?_⟩
  rcases gt_of_signWords _ member last with diff | gt | rightShift
  · have sign : op.lexeme = ['<', '>'] := congrArg Word.lexeme diff
    rw [sign] at text
    exact ⟨(List.append_cancel_right text).symm, diff⟩
  · change op.lexeme = ['>'] at gt
    rw [gt] at text
    have split : ts.flatMap source ++ op.gap ++ ['>'] = K ++ ['<'] ++ ['>'] := by simpa using text
    have lt : ts.flatMap source ++ op.gap = K ++ ['<'] := List.append_cancel_right split
    obtain ⟨empty, front, u, rfl, twice⟩ := lt_apart hlx read
      (fun u hu => sound u (List.mem_append_left _ hu)) kind (by rw [lt, List.getLast?_concat])
      (by rw [gt]; rfl)
    exact absurd empty (shift front u op (by simp) twice gt)
  · change op.lexeme = ['>', '>'] at rightShift
    rw [rightShift] at text
    cases (List.append_inj' text rfl).2

end Last

/-- A comparison that is found at the end of a text is its last token. -/
theorem exists_comparison (hlx : l.lexicon.delimiter = []) (h : l.tokens = us ++ next :: more)
    (sound : ∀ u ∈ us, ∀ e, u.kind ≠ .error e) (whole : WholeSigns us next.gap)
    (spelled : us.flatMap source ++ next.gap = front ++ t) (apart : NotLast isSign front)
    (found : splitComparison? t = some (kept, test)) :
    ∃ ts op operator, us = ts ++ [op] ∧ front ++ kept = ts.flatMap source ++ op.gap ∧
      op.toWord ∈ signWords ∧ op.kind.nullTest? = some operator ∧ test = operator.sql := by
  have trimmed : Trimmed (us.flatMap source) :=
    trimmed_sources hlx (fun u hu => h ▸ List.mem_append_left _ hu)
      fun u hu => ⟨ne_eof_of_tokens h hu, sound u hu⟩
  have text {sign : List Char} {z : Char} (hz : isSign z) (last : sign.getLast? = some z)
      (back : trimEnd t = kept ++ sign) : us.flatMap source = front ++ kept ++ sign := by
    have ends : (trimEnd t).getLast? = some z := by
      rw [back, List.getLast?_append, last, Option.some_or]
    rw [Text.eq_of_sign trimmed whole.comment spelled hz ends, back, List.append_assoc]
  have tests {op : Token} {p : Punct} {lexeme : String} (word : op.toWord = .sign p lexeme) :
      op.kind.nullTest? = (TokenKind.punct p).nullTest? :=
    congrArg (·.kind.nullTest?) word
  rcases splitComparison?_eq_some found with ⟨back | back, rfl⟩ | ⟨back, rfl, lead⟩
  · obtain ⟨ts, op, same, K, word⟩ :=
      exists_notEq hlx h sound (text (z := '=') (by decide) rfl back)
    exact ⟨ts, op, .isNotNull, same, K, word ▸ by decide, tests word, rfl⟩
  · obtain ⟨ts, op, same, K, word⟩ :=
      exists_diff hlx h sound whole.shift (text (z := '>') (by decide) rfl back)
    exact ⟨ts, op, .isNotNull, same, K, word ▸ by decide, tests word, rfl⟩
  · have noLead : NotLast isLead (front ++ kept) := by
      refine (apart.mono fun c hc => ?_).append lead
      exact (Bool.and_eq_true_iff.1 hc).1
    obtain ⟨ts, op, same, K, word⟩ :=
      exists_eq hlx h sound whole.double (text (z := '=') (by decide) rfl back) noLead
    exact ⟨ts, op, .isNull, same, K, word ▸ by decide, tests word, rfl⟩

/-- The text in front of a comparison ends with a blank, or one is put behind it. -/
theorem between_test {ts : List Token} {op : Token} (trimmed : Trimmed (ts.flatMap source))
    (split : front ++ kept = ts.flatMap source ++ op.gap) :
    ∃ between, (if (kept.getLast?.map isBlank).getD false then [] else [' ']) = between ∧
      (between = [' '] ∨ between = [] ∧ ∃ first b, op.gap = first ++ [b] ∧ isBlank b) := by
  refine ⟨_, rfl, ?_⟩
  split
  · rename_i blank
    cases last : kept.getLast? with
    | none => simp [last] at blank
    | some b =>
      replace blank : isBlank b := by simpa [last] using blank
      refine .inr ⟨rfl, ?_⟩
      have end_ : (ts.flatMap source ++ op.gap).getLast? = some b := by
        rw [← split, List.getLast?_append, last, Option.some_or]
      rcases List.eq_nil_or_concat op.gap with empty | ⟨first, c, gap⟩
      · rw [empty, List.append_nil] at end_
        rw [trimmed b end_] at blank
        cases blank
      · rw [gap, List.concat_eq_append, ← List.append_assoc, List.getLast?_concat] at end_
        cases end_
        exact ⟨first, b, by rw [gap, List.concat_eq_append], blank⟩
  · exact .inl rfl

end Lexer

/-- If the text in front of a parameter becomes a test, its last token is a comparison, and the words
of the text are the same with the test in the place of the comparison. -/
theorem Dialect.words_tested {d : Dialect} {text front : List Char} {us more : List Token}
    {next : Token} {t t' : String} (h : (Lexer.ofText d.lexicon text).tokens = us ++ next :: more)
    (sound : ∀ u ∈ us, ∀ e, u.kind ≠ .error e) (whole : WholeSigns us next.gap)
    (spelled : us.flatMap source ++ next.gap = front ++ t.toList) (apart : NotLast isSign front)
    (tested : Fragment.testForNull? t = some t') :
    ∃ ts op test, us = ts ++ [op] ∧ op.kind.nullTest? = some test ∧
      d.words (front ++ t'.toList) = ts.map toWord ++ test.words := by
  obtain ⟨⟨kept, test⟩, found, rfl⟩ := Option.map_eq_some_iff.1 tested
  obtain ⟨ts, op, operator, rfl, split, word, operators, rfl⟩ :=
    Lexer.exists_comparison rfl h sound whole spelled apart found
  have read : (Lexer.ofText d.lexicon text).tokens = ts ++ op :: next :: more := by simpa using h
  have soundFront (u : Token) (hu : u ∈ ts) := sound u (List.mem_append_left _ hu)
  have trimmed : Trimmed (ts.flatMap source) :=
    Lexer.trimmed_sources rfl (fun u hu => read ▸ List.mem_append_left _ hu)
      fun u hu => ⟨Lexer.ne_eof_of_tokens read hu, soundFront u hu⟩
  obtain ⟨between, gap, blank⟩ := Lexer.between_test trimmed split
  have written : front ++ (String.ofList (kept ++ between ++ operator.sql.toList)).toList =
      ts.flatMap source ++ op.gap ++ between ++ operator.sql.toList := by
    rw [← split]
    simp
  obtain ⟨plain, readIn⟩ : '?' ∉ operator.sql.toList ∧ operator.ReadIn d := by
    rcases TokenKind.nullTest?_eq_some operators with rfl | rfl
    · exact ⟨by decide, .of_plain rfl (by decide) d⟩
    · exact ⟨by decide, .of_plain rfl (by decide) d⟩
  refine ⟨ts, op, operator, rfl, operators, ?_⟩
  dsimp only
  rw [gap, written, ← (spells_operator readIn).words_eq]
  exact Lexer.words_replaced rfl read soundFront word blank plain 0

/-! ## Fragments -/

namespace Fragment

variable {isNull : ParamRef → Bool} {front behind : List Fragment} {p : ParamRef}

/-- The rewriting takes the parameter `p` away behind the fragments `front`: it does not become one of
the rewritten fragments. -/
def Removes (isNull : ParamRef → Bool) (front : List Fragment) (p : ParamRef) : Prop :=
  pushTested isNull (front.foldl (pushTested isNull) []) (.param p) ≠
    front.foldl (pushTested isNull) [] ++ [.param p]

/-- Behind what is taken away the fragments end with a test. -/
theorem Removes.exists_test (h : Removes isNull front p) :
    ∃ tested, endWithTest? (front.foldl (pushTested isNull) []) = some tested ∧
      pushTested isNull (front.foldl (pushTested isNull) []) (.param p) = tested := by
  unfold Removes at h
  generalize front.foldl (pushTested isNull) [] = parts at h ⊢
  rw [pushTested] at h ⊢
  split at h
  · rename_i tested found
    exact ⟨tested, (Option.ite_none_right_eq_some.1 found).2, rfl⟩
  · exact absurd rfl h

/-- A parameter that is taken away stands behind a text that ends with a comparison, and the fragments
become what they become with the test in this text and without the parameter. -/
theorem Removes.exists_text (h : Removes isNull front p)
    (separated : Separated (front ++ .param p :: behind)) :
    ∃ before t t', front = before ++ [.text t] ∧ testForNull? t = some t' ∧
      (∀ u, before.getLast? ≠ some (.text u)) ∧
      (front ++ .param p :: behind).foldl (pushTested isNull) [] =
        (before ++ [Fragment.text t'] ++ behind).foldl (pushTested isNull) [] := by
  obtain ⟨tested, found, pushed⟩ := h.exists_test
  rcases List.eq_nil_or_concat front with rfl | ⟨before, last, rfl⟩
  · cases found
  rw [List.concat_eq_append] at separated found pushed ⊢
  rw [List.foldl_append, List.foldl_cons, pushed]
  rw [List.foldl_append, List.foldl_cons, List.foldl_nil] at found
  cases last with
  | param q =>
    -- Behind a parameter or a test no text ends with a comparison.
    rw [(endsAs_pushTested isNull _ q).endWithTest?_eq_none (by decide)] at found
    cases found
  | text t =>
    have parts := List.isChain_append.1 (List.isChain_append.1 separated.apart).1
    have noText (u : String) : before.getLast? ≠ some (.text u) := by
      intro text
      have sides := parts.2.2 _ text _ rfl
      simp [ref?] at sides
    have ends : EndsAs "" (before.foldl (pushTested isNull) []) := by
      rcases List.eq_nil_or_concat before with rfl | ⟨first, part, rfl⟩
      · intro f u same
        cases f <;> cases same
      · rw [List.concat_eq_append] at noText ⊢
        cases part with
        | text u => exact absurd List.getLast?_concat (noText u)
        | param q =>
          rw [List.foldl_append]
          exact endsAs_pushTested isNull _ q
    have filled : t ≠ "" := separated.nonempty t (by simp)
    rw [pushTested, ends.endWithTest?_pushText filled] at found
    obtain ⟨t', test, rfl⟩ := Option.map_eq_some_iff.1 found
    refine ⟨before, t, t', rfl, test, noText, ?_⟩
    rw [List.foldl_append, List.foldl_append]
    rfl

end Fragment

theorem Token.key?_of_signWords : ∀ w ∈ signWords, w.kind.key? = none := by
  decide

/-- A placeholder ends with no sign. -/
theorem Lexer.notLast_placeholder {l : Lexer} {t : Token} (hlx : l.lexicon.delimiter = [])
    (ht : t ∈ l.tokens) (sound : ∀ e, t.kind ≠ .error e) (placeholder : t.isPlaceholder) :
    t.lexeme ≠ [] ∧ NotLast isSign t.lexeme := by
  have kind : t.kind ≠ .eof := by
    intro eof
    rw [isPlaceholder, eof] at placeholder
    cases placeholder
  obtain ⟨ts, more, split⟩ := List.append_of_mem ht
  obtain ⟨n, c, cs, -, -, -, -, lexeme⟩ := scanned_of_tokens split kind
  refine ⟨lexeme ▸ List.cons_ne_nil _ _, fun z last => ?_⟩
  by_contra sign
  have noKey : t.kind.key? = none := key?_of_signWords _
    (mem_signWords hlx split kind sound (by simpa using sign) last)
  rw [isPlaceholder, noKey] at placeholder
  cases placeholder

/-! ## Statements -/

namespace Statement

variable {s : ParseSettings} {delimiter text : List Char} {st : Statement}
  {front behind : List Fragment} {p : ParamRef}

/-- Where the rewriting of a statement that is kept as text takes a parameter away, the statement
becomes what it becomes without the parameter and with other fragments in front of its place. If the
signs in front of it are those of a whole token, this token is a comparison, and the words of the other
fragments are the tokens in front of it and the test for NULL in its place. -/
theorem Parsed.testForNulls_of_removes (h : st.Parsed s delimiter text) {values : Bindings}
    (kept : st.body = .verbatim (front ++ .param p :: behind))
    (removed : Fragment.Removes (ParamRef.holdsNull st.params values) front p) :
    ∃ c ts after cuts front', Cutout.StandsFor c p ∧
      st.tokens s.dialect = ts ++ c.tokens ++ after ∧
      Fragment.Cut front cuts (ts.flatMap source ++ c.first.gap) ∧
      (st.testForNulls values).body = .verbatim ((front' ++ behind).foldl
        (Fragment.pushTested (ParamRef.holdsNull st.params values)) []) ∧
      (WholeSigns ts c.first.gap → ∃ before op test cut, ts = before ++ [op] ∧
        op.kind.nullTest? = some test ∧ Fragment.Cut front' cuts cut ∧
        s.dialect.words cut = before.map toWord ++ test.words) := by
  have separated : Fragment.Separated (front ++ .param p :: behind) := by
    have all := h.separated
    rwa [kept] at all
  obtain ⟨c, ts, after, cuts, standsFor, tokens, cut, members⟩ := h.exists_cut_at kept
  obtain ⟨before, t, t', rfl, tested, noText, rewritten⟩ := removed.exists_text separated
  refine ⟨c, ts, after, cuts, before ++ [.text t'], standsFor, tokens, cut, ?_, fun whole => ?_⟩
  · have body : (st.testForNulls values).body =
        st.body.testForNulls (ParamRef.holdsNull st.params values) := rfl
    rw [body, kept, ← rewritten]
    rfl
  · obtain ⟨firstCuts, lastCuts, first, last, rfl, split, cutFirst, cutLast⟩ := cut.exists_append
    obtain ⟨rfl, rfl⟩ : lastCuts = [] ∧ last = t.toList := by
      cases cutLast with
      | text _ nothing =>
        cases nothing
        exact ⟨rfl, List.append_nil _⟩
    obtain ⟨more, cutTokens⟩ := c.tokens_eq
    have read : (Lexer.ofText s.dialect.lexicon st.sql.toList).tokens =
        ts ++ c.first :: (more ++ after) := by
      have all : st.tokens s.dialect = ts ++ c.first :: (more ++ after) := by
        rw [tokens, cutTokens]
        simp
      exact all
    have sound (u : Token) (hu : u ∈ st.tokens s.dialect) : ∀ e, u.kind ≠ .error e :=
      h.holds.1.ne_error hu
    have apart : NotLast isSign first := by
      refine cutFirst.notLast noText fun e he => ?_
      obtain ⟨member, placeholder⟩ := members e (List.mem_append_left _ he)
      exact Lexer.notLast_placeholder rfl member (sound _ member) placeholder
    obtain ⟨front, op, test, same, operator, words⟩ := Dialect.words_tested read
      (fun u hu => sound u (by rw [tokens]; simp [hu])) whole split apart tested
    refine ⟨front, op, test, _, same, operator, cutFirst.append (Fragment.Cut.nil.text t'), ?_⟩
    rwa [List.append_nil]

/-- `DROP VIEW v WHERE a = :a AND id <> ##id::int::null` is kept as text. -/
def ofView : Statement where
  sql := "DROP VIEW v WHERE a = :a AND id <> ##id::int::null"
  body := .verbatim [.text "DROP VIEW v WHERE a = ", .param (.ofKey (.named "a")),
    .text " AND id <> ", .param (.ofKey (.named "id"))]
  params := ⟨[⟨.named "a", none, none, false⟩, ⟨.named "id", none, some "int", true⟩], []⟩

theorem parsed_ofView : ofView.Parsed {} [] ofView.sql.toList := by
  let ts : List Token :=
    [.onLine (.identifier "DROP") "" "DROP" 0, .onLine (.identifier "VIEW") " " "VIEW" 5,
      .onLine (.identifier "v") " " "v" 10, .onLine (.keyword .WHERE) " " "WHERE" 12,
      .onLine (.identifier "a") " " "a" 18, .onLine (.punct .eq) " " "=" 20,
      .onLine (.hostParam "a") " " ":a" 22, .onLine (.keyword .AND) " " "AND" 25,
      .onLine (.identifier "id") " " "id" 29, .onLine (.punct .notEq) " " "<>" 32,
      .onLine (.param ⟨.named "id", some "int", none, true, false⟩) " " "##id::int::null" 35]
  let p : Piece := .onLine ts 50
  have found : ((Script.ofText [] ofView.sql.toList).settle .standard).piece {} = .ok p := by
    decide +kernel
  have inner : p.innerTokens .standard = ts ++ [p.terminator] := by decide +kernel
  exact parsed_of_verbatim found nofun inner rfl rfl rfl rfl rfl rfl

/-- If `##id` is NULL, it is taken away behind `<>`, which becomes a test for NULL. -/
theorem Parsed.testForNulls_of_removes_view :
    ofView.Parsed {} [] ofView.sql.toList ∧
      (∃ before op test after front' cuts cut, ofView.tokens .standard = before ++ op :: after ∧
        op.kind.nullTest? = some test ∧ Fragment.Cut front' cuts cut ∧
        Dialect.standard.words cut = before.map toWord ++ test.words) ∧
      ofView.render (Bindings.set ⟨[("a", .int 1)]⟩ "id" .null) {} .standard =
        .ok "DROP VIEW v WHERE a = 1 AND id IS NOT NULL" := by
  have removed : Fragment.Removes
      (ParamRef.holdsNull ofView.params (Bindings.set ⟨[("a", .int 1)]⟩ "id" .null))
      [.text "DROP VIEW v WHERE a = ", .param (.ofKey (.named "a")), .text " AND id <> "]
      (.ofKey (.named "id")) := by
    unfold Fragment.Removes
    decide +kernel
  have plain : ∀ t ∈ ofView.tokens .standard,
      t.gap.all isBlank ∧ t.lexeme ≠ ['=', '='] ∧ t.lexeme ≠ ['<', '<'] := by decide +kernel
  obtain ⟨c, ts, after, cuts, front', -, tokens, -, -, replaced⟩ :=
    parsed_ofView.testForNulls_of_removes rfl removed
  obtain ⟨more, cutTokens⟩ := c.tokens_eq
  have inside (t : Token) (ht : t ∈ ts ++ c.tokens) : t ∈ ofView.tokens .standard := by
    rw [show ofView.tokens .standard = _ from tokens]
    exact List.mem_append_left _ ht
  have whole : WholeSigns ts c.first.gap := by
    refine .of_blanks ?_ fun t ht => (plain t (inside t (List.mem_append_left _ ht))).2
    exact List.all_eq_true.1 (plain c.first (inside c.first (by simp [cutTokens]))).1
  obtain ⟨before, op, test, cut, rfl, operator, spelled, words⟩ := replaced whole
  refine ⟨parsed_ofView, ⟨before, op, test, c.tokens ++ after, front', cuts, cut, ?_, operator,
    spelled, words⟩, by decide +kernel⟩
  rw [show ofView.tokens .standard = _ from tokens]
  simp

end Statement

end BoundSql
