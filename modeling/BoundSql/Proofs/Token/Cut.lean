import BoundSql.Proofs.Text.Trimmed
import BoundSql.Proofs.Token.Locality

/-!
# Texts cut in front of a break

The converse of `Locality`: a token that lies in the front part of a text, which a break follows, is
found again when the text is cut there. What may keep a scanner from finding it is an error, and
an error that the cut brings about belongs to a token that reaches beyond it.
-/

namespace BoundSql.Token

open Text

/-- If the answer `b` is an error, so is `a`, or its token is longer than `n`. -/
def Outgrows (n : Nat) (a b : TokenKind × Nat) : Prop :=
  ∀ e, b.1 = .error e → (∃ e', a.1 = .error e') ∨ n < a.2

/-- A scanner that meets an error in a part of a text meets one in the whole text too, or takes a
token that reaches beyond the part. -/
def Lasting (scanner : List Char → TokenKind × Nat) : Prop :=
  ∀ cs rest, Breaks rest → Outgrows cs.length (scanner (cs ++ rest)) (scanner cs)

theorem Outgrows.ite {n : Nat} {p : Prop} [Decidable p] {a b a' b' : TokenKind × Nat}
    (h : p → Outgrows n a b) (h' : ¬ p → Outgrows n a' b') :
    Outgrows n (if p then a else a') (if p then b else b') := by
  by_cases hp : p
  · simpa only [if_pos hp] using h hp
  · simpa only [if_neg hp] using h' hp

theorem Outgrows.of_ne {n : Nat} {a b : TokenKind × Nat} (h : ∀ e, b.1 ≠ .error e) :
    Outgrows n a b :=
  fun e he => absurd he (h e)

/-- An answer that is no error and fits is the answer for the part. -/
theorem Agrees.eq_of_fits {n : Nat} {a b : TokenKind × Nat} (agrees : Agrees n a b)
    (outgrows : Outgrows n a b) (sound : ∀ e, a.1 ≠ .error e) (fits : a.2 ≤ n) : a = b := by
  refine (agrees fun e he => ?_).1
  rcases outgrows e he with ⟨e', ha⟩ | hlt
  · exact sound e' ha
  · exact absurd hlt (Nat.not_lt.2 fits)

/-- The text `tail` may take the place of `rest`: it is empty or begins with the same character. -/
def Replaces (tail rest : List Char) : Prop := tail = [] ∨ tail.head? = rest.head?

theorem Replaces.breaks {tail rest : List Char} (h : Replaces tail rest) (hrest : Breaks rest) :
    Breaks tail := by
  rcases h with rfl | hhead
  · exact ends_nil.breaks
  · intro c hc
    exact hrest c (hhead ▸ hc)

/-- The text `tail` may take the place of `rest` behind a run of `p`: it begins with the same
character, or the run does not go on with it. -/
def Turns (p : Char → Bool) (tail rest : List Char) : Prop :=
  tail.head? = rest.head? ∨ ∀ c, tail.head? = some c → p c = false

theorem Replaces.turns {tail rest : List Char} (h : Replaces tail rest) (p : Char → Bool) :
    Turns p tail rest := by
  rcases h with rfl | head
  · exact .inr fun c hc => by cases hc
  · exact .inl head

theorem turns_nil (p : Char → Bool) (rest : List Char) : Turns p [] rest :=
  Replaces.turns (.inl rfl) p

section Bodies

variable {quote : Char} {escapes : Bool} {depth n : Nat} {cs rest text part : List Char}

/-- The closing quote counts. -/
theorem quotedBody_pos (h : quotedBody quote escapes cs = some (text, n)) : 0 < n := by
  rw [quotedBody.eq_def] at h
  repeat' split at h
  all_goals simp only [Option.map_eq_some_iff, Option.some.injEq, Prod.mk.injEq, reduceCtorEq] at h
  all_goals grind

/-- A closing quote inside a part of a text closes the part, whatever may take the place of what
stands behind. -/
theorem quotedBody_replace {tail : List Char} (htail : Turns (· == quote) tail rest)
    (h : quotedBody quote escapes (cs ++ rest) = some (text, n)) (hn : n ≤ cs.length) :
    quotedBody quote escapes (cs ++ tail) = some (text, n) := by
  fun_induction quotedBody quote escapes cs generalizing text n with
  | case1 => exact absurd (quotedBody_pos h) (Nat.not_lt.2 hn)
  | case2 =>
    obtain ⟨single, closed⟩ : rest.head? ≠ some quote ∧ some ([], 1) = some (text, n) := by
      cases rest with
      | nil => exact ⟨by simp, by simpa [quotedBody] using h⟩
      | cons d ds =>
        by_cases hd : d = quote
        · simp only [List.cons_append, List.nil_append, quotedBody, hd, if_true,
            Option.map_eq_some_iff] at h
          obtain ⟨⟨text', n'⟩, -, heq⟩ := h
          cases heq
          simp at hn
        · exact ⟨by simpa using hd, by simpa [quotedBody, hd] using h⟩
    cases tail with
    | nil => simpa [quotedBody] using closed
    | cons d ds =>
      have hd : d ≠ quote := by
        rintro rfl
        rcases htail with head | turns
        · exact single head.symm
        · simpa using turns d rfl
      simpa [quotedBody, hd] using closed
  | case3 ds ih =>
    simp only [List.cons_append, quotedBody, if_true] at h ⊢
    obtain ⟨⟨text', n'⟩, found, heq⟩ := Option.map_eq_some_iff.1 h
    cases heq
    simp only [List.length_cons] at hn
    rw [ih found (by omega)]
    rfl
  | case4 d ds hd => simpa [quotedBody, hd] using h
  | case5 c hc hesc =>
    simp only [Bool.and_eq_true, decide_eq_true_eq] at hesc
    obtain ⟨rfl, rfl⟩ := hesc
    cases rest with
    | nil => simp [quotedBody, hc] at h
    | cons d ds =>
      simp only [List.cons_append, List.nil_append, quotedBody, if_neg hc, decide_true,
        Bool.and_true, if_true] at h
      obtain ⟨⟨text', n'⟩, -, heq⟩ := Option.map_eq_some_iff.1 h
      cases heq
      simp at hn
  | case6 c hc hesc d ds ih =>
    simp only [Bool.and_eq_true, decide_eq_true_eq] at hesc
    obtain ⟨rfl, rfl⟩ := hesc
    simp only [List.cons_append, quotedBody, if_neg hc, decide_true, Bool.and_true, if_true] at h ⊢
    obtain ⟨⟨text', n'⟩, found, heq⟩ := Option.map_eq_some_iff.1 h
    cases heq
    simp only [List.length_cons] at hn
    rw [ih found (by omega)]
    rfl
  | case7 c ds hc hesc ih =>
    rw [List.cons_append, quotedBody_plain hc hesc] at h
    obtain ⟨⟨text', n'⟩, found, heq⟩ := Option.map_eq_some_iff.1 h
    cases heq
    rw [List.cons_append, quotedBody_plain hc hesc, ih found (by simpa using hn)]
    rfl

/-- A closing quote inside a part of a text closes the part. -/
theorem quotedBody_cut (h : quotedBody quote escapes (cs ++ rest) = some (text, n))
    (hn : n ≤ cs.length) : quotedBody quote escapes cs = some (text, n) := by
  have cut := quotedBody_replace (turns_nil _ _) h hn
  rwa [List.append_nil] at cut

/-- The closing mark counts. -/
theorem two_le_of_commentBody (h : commentBody depth cs = some (text, n)) : 2 ≤ n := by
  fun_induction commentBody depth cs generalizing text n with
  | case1 => cases h
  | case2 =>
    cases h
    exact Nat.le_refl 2
  | case3 depth ds ih | case4 depth ds ih | case5 depth c ds _ _ _ ih =>
    obtain ⟨⟨text', n'⟩, found, heq⟩ := Option.map_eq_some_iff.1 h
    cases heq
    have := ih found
    omega

/-- A closing mark inside a part of a text closes the part. -/
theorem commentBody_cut (h : commentBody depth (cs ++ rest) = some (text, n))
    (hn : n ≤ cs.length) : commentBody depth cs = some (text, n) := by
  fun_induction commentBody depth cs generalizing text n with
  | case1 =>
    have := two_le_of_commentBody h
    simp at hn
    omega
  | case2 => simpa [commentBody] using h
  | case3 depth ds ih | case4 depth ds ih =>
    simp only [List.cons_append, commentBody] at h
    obtain ⟨⟨text', n'⟩, found, heq⟩ := Option.map_eq_some_iff.1 h
    cases heq
    simp only [List.length_cons] at hn
    rw [ih found (by omega)]
    rfl
  | case5 depth c ds h₁ h₂ h₃ ih =>
    cases ds with
    | nil =>
      have := two_le_of_commentBody h
      simp at hn
      omega
    | cons d ds =>
      have hclose : c = '*' → d ≠ '/' := by
        rintro rfl rfl
        cases depth with
        | zero => exact h₁ ds rfl rfl rfl
        | succ depth => exact h₂ depth ds rfl rfl rfl
      have hopen : c = '/' → d ≠ '*' := by
        rintro rfl rfl
        exact h₃ ds rfl rfl
      rw [List.cons_append, List.cons_append, commentBody_plain hclose hopen] at h
      obtain ⟨⟨text', n'⟩, found, heq⟩ := Option.map_eq_some_iff.1 h
      cases heq
      rw [ih found (by simpa using hn)]
      rfl

/-- A tag that is found inside a part of a text is found in the part. -/
theorem find?_cut (h : find? part (cs ++ rest) = some n) (hn : n + part.length ≤ cs.length) :
    find? part cs = some n := by
  induction cs generalizing n with
  | nil =>
    simp only [List.length_nil, Nat.le_zero, Nat.add_eq_zero_iff, List.length_eq_zero_iff] at hn
    obtain ⟨rfl, rfl⟩ := hn
    rfl
  | cons c cs ih =>
    rw [List.cons_append, find?, ← List.cons_append] at h
    rw [find?]
    split at h
    · rename_i hopen
      cases h
      rw [opens_append (by omega)] at hopen
      rw [if_pos hopen]
    · rename_i hopen
      obtain ⟨m, found, rfl⟩ := Option.map_eq_some_iff.1 h
      simp only [List.length_cons] at hn
      have hclosed : ¬ opens part (c :: cs) = true := by
        intro hpart
        rw [opens_append (length_le_of_opens hpart)] at hopen
        exact hopen hpart
      rw [if_neg hclosed, ih found (by omega)]
      rfl

end Bodies

theorem lasting_scanString (d : Dialect) (quote : Char) : Lasting (scanString d quote) := by
  intro cs rest _ e he
  unfold scanString at he ⊢
  cases whole : quotedBody quote d.backslashEscapes (cs ++ rest) with
  | none => exact .inl ⟨_, rfl⟩
  | some found =>
    obtain ⟨text, n⟩ := found
    refine .inr (Nat.lt_of_not_le fun hn => ?_)
    rw [quotedBody_cut whole hn] at he
    cases he

theorem lasting_scanDelimited (quote : Char) : Lasting (scanDelimited quote) := by
  intro cs rest _ e he
  unfold scanDelimited at he ⊢
  cases whole : quotedBody quote false (cs ++ rest) with
  | none => exact .inl ⟨_, rfl⟩
  | some found =>
    obtain ⟨text, n⟩ := found
    refine .inr (Nat.lt_of_not_le fun hn => ?_)
    rw [quotedBody_cut whole hn] at he
    cases he

/-- A run that reaches the end of a part of a text is at least as long in the whole text. -/
theorem length_le_takeWhile_append {p : Char → Bool} {cs : List Char} (rest : List Char)
    (h : cs.drop (cs.takeWhile p).length = []) : cs.length ≤ ((cs ++ rest).takeWhile p).length := by
  induction cs with
  | nil => exact Nat.zero_le _
  | cons c cs ih =>
    by_cases hc : p c
    · simp only [List.takeWhile_cons_of_pos hc, List.length_cons, List.drop_succ_cons] at h
      simp [hc, ih h]
    · simp [hc] at h

theorem lasting_scanBlob : Lasting scanBlob := by
  intro cs rest _ e he
  unfold scanBlob at he ⊢
  simp only at he ⊢
  generalize hp : (fun c => isHexDigit c || isBlank c) = p at he ⊢
  by_cases inside : cs.tail.drop (cs.tail.takeWhile p).length = []
  · -- The blob goes on behind the cut: it has no end, or reaches beyond the cut.
    have long : cs.length < ((cs ++ rest).tail.takeWhile p).length + 2 := by
      cases cs with
      | nil => simp
      | cons c cs =>
        have := length_le_takeWhile_append rest inside
        simp only [List.cons_append, List.tail_cons, List.length_cons] at this ⊢
        omega
    split
    · exact .inl ⟨_, rfl⟩
    · split
      · exact .inr long
      · exact .inr long
    · exact .inr long
  · cases cs with
    | nil => simp at inside
    | cons c cs =>
      simp only [List.cons_append, List.tail_cons] at he inside ⊢
      simp only [takeWhile_append_of_drop inside, drop_takeWhile_append]
      cases hdrop : cs.drop (cs.takeWhile p).length with
      | nil => exact absurd hdrop inside
      | cons d ds =>
        rw [hdrop] at he
        by_cases hd : d = '\''
        · subst hd
          exact .inl ⟨e, he⟩
        · exact .inl ⟨_, by simp [hd]; rfl⟩

theorem lasting_scanNumber (c : Char) : Lasting fun cs => scanNumber (c :: cs) := by
  intro cs rest hrest e he
  have same : scanNumber (c :: (cs ++ rest)) = scanNumber (c :: cs) :=
    scanNumber_append (c :: cs) hrest
  exact .inl ⟨e, by simpa only [same] using he⟩

theorem lasting_placeholder : Lasting Placeholder.scan := by
  intro cs rest hrest e he
  unfold Placeholder.scan at he ⊢
  simp only at he ⊢
  generalize hp : (fun c => c == ' ' || c == '\t') = p at he ⊢
  by_cases inside : cs.drop (cs.takeWhile p).length = []
  · have long := length_le_takeWhile_append rest inside
    split
    · split
      · exact .inr (by simp only; omega)
      · exact .inl ⟨_, rfl⟩
    · -- Behind blanks alone there is no name.
      rw [bodyOf_append hrest, bodyOf_blanks (hp ▸ inside)]
      exact .inl ⟨_, rfl⟩
  · rw [takeWhile_append_of_drop inside, drop_takeWhile_append, bodyOf_append hrest]
    have hlen := congrArg List.length (List.take_append_drop (cs.takeWhile p).length cs)
    simp only [List.length_append, List.length_take] at hlen
    have hblanks := length_takeWhile_le p cs
    generalize (cs.takeWhile p).length = blanks at he inside hlen hblanks ⊢
    generalize cs.drop blanks = ds at he inside hlen ⊢
    by_cases hopen : ∃ inner, ds = '/' :: '*' :: inner
    · obtain ⟨inner, rfl⟩ := hopen
      simp only [List.cons_append] at he ⊢
      cases whole : commentBody 0 (inner ++ rest) with
      | none => exact .inl ⟨_, rfl⟩
      | some found =>
        obtain ⟨content, n⟩ := found
        by_cases hn : n ≤ inner.length
        · rw [commentBody_cut whole hn] at he
          exact .inl ⟨e, he⟩
        · refine .inr ?_
          simp only [List.length_cons] at hlen ⊢
          omega
    · have h₁ : ∀ inner, ds ≠ '/' :: '*' :: inner := fun inner h => hopen ⟨inner, h⟩
      have h₂ : ∀ inner, ds ++ rest ≠ '/' :: '*' :: inner := by
        intro inner heq
        cases ds with
        | nil => exact inside rfl
        | cons d ds =>
          injection heq with hd hds
          exact not_cons_append hrest rfl (fun t ht => h₁ t (by rw [hd, ht])) inner hds
      split at he
      · exact absurd rfl (h₁ _)
      · exact .inl ⟨e, he⟩

/-- A dollar-quoted string that has no end in a part of a text has none in the whole text, or its
end lies behind the part. -/
theorem lasting_scanDollar? {cs rest : List Char} (hrest : Breaks rest) {b : TokenKind × Nat}
    (hb : scanDollar? cs = some b) :
    ∃ a, scanDollar? (cs ++ rest) = some a ∧ Outgrows cs.length a b := by
  unfold scanDollar? at hb ⊢
  simp only [takeWhile_append breakFree_isWordChar hrest, drop_takeWhile_append] at hb ⊢
  have hname := length_takeWhile_le isWordChar cs
  generalize cs.takeWhile isWordChar = name at hb hname ⊢
  cases hd : cs.drop name.length with
  | nil =>
    rw [hd] at hb
    cases hb
  | cons c body =>
    by_cases hc : c = '$'
    · subst hc
      have hlen := congrArg List.length hd
      simp only [List.length_drop, List.length_cons] at hlen
      simp only [hd, List.cons_append] at hb ⊢
      split at hb
      · cases hb
      · rename_i hhead
        rw [if_neg hhead]
        cases whole : find? ('$' :: (name ++ ['$'])) (body ++ rest) with
        | none => exact ⟨_, rfl, fun _ _ => .inl ⟨_, rfl⟩⟩
        | some n =>
          refine ⟨_, rfl, fun e he => .inr (Nat.lt_of_not_le fun hn => ?_)⟩
          have hfits : n + ('$' :: (name ++ ['$'])).length ≤ body.length := by
            simp only [List.length_cons, List.length_append, List.length_nil] at hn ⊢
            omega
          rw [find?_cut whole hfits] at hb
          cases hb
          cases he
    · rw [hd] at hb
      simp [hc] at hb

/-- What is no quotation, number or placeholder is no error. -/
theorem scanPlain_sound (lx : Lexicon) (n : Nat) (c : Char) (cs : List Char) (e : LexicalError) :
    (scanPlain lx n c cs).1 ≠ .error e := by
  unfold scanPlain
  split
  · unfold scanName word
    simp only
    split <;> simp
  · split
    · simp [scanSystem]
    · split
      · unfold scanHost
        extract_lets name
        split
        · simp
        · split <;> simp
      · unfold scanPunct
        split <;> (try split) <;> simp

section Leads

variable {hash : Bool} {c : Char} {cs rest : List Char}

/-- A part of a text opens a comment only if the text does. -/
theorem exists_comment_append {more : Nat} (hrest : Breaks rest)
    (h : commentLead hash (c :: cs) = .comment more) :
    ∃ m, commentLead hash (c :: (cs ++ rest)) = .comment m := by
  generalize ht : c :: cs = text at h
  fun_cases commentLead hash text
  case case1 line =>
    cases ht
    exact ⟨_, rfl⟩
  case case4 inner content n body placeholder =>
    cases ht
    refine ⟨n + 1, ?_⟩
    simp only [List.cons_append, commentLead, (commentBody_append rest body).1, placeholder]
    rfl
  case case5 line single =>
    cases ht
    have hmark : (hash && (cs ++ rest).head? != some '#') = true := by
      rw [bne, head?_beq_append rfl hrest]
      exact single
    exact ⟨_, by rw [commentLead, if_pos hmark]⟩
  case case6 line single =>
    cases ht
    rw [commentLead, if_neg single] at h
    cases h
  all_goals simp_all [commentLead]

/-- A comment that has no end in a part of a text is a placeholder or an error of the whole text. -/
theorem outgrows_unterminated {lx : Lexicon} {n : Nat} {b : TokenKind × Nat}
    (hcut : commentLead lx.dialect.hashComments (c :: cs) = .unterminated)
    (hgap : ∀ more, commentLead lx.dialect.hashComments (c :: (cs ++ rest)) ≠ .comment more) :
    Outgrows cs.length (scan lx n c (cs ++ rest)) b := by
  intro e _
  generalize ht : c :: cs = text at hcut
  fun_cases commentLead lx.dialect.hashComments text
  case case2 inner body =>
    cases ht
    cases whole : commentBody 0 (inner ++ rest) with
    | none => exact .inl ⟨.unterminatedComment, by simp [scan, commentLead, whole]⟩
    | some found =>
      obtain ⟨content, m⟩ := found
      have long : inner.length < m := by
        refine Nat.lt_of_not_le fun hm => ?_
        rw [commentBody_cut whole hm] at body
        cases body
      by_cases placeholder : isPlaceholderComment content
      · refine .inr ?_
        simp only [scan, List.cons_append, commentLead, whole, placeholder, if_true,
          List.length_cons]
        omega
      · refine absurd ?_ (hgap (m + 1))
        simp [commentLead, whole, placeholder]
  case case6 line single =>
    cases ht
    rw [commentLead, if_neg single] at hcut
    cases hcut
  all_goals simp_all [commentLead]

/-- An operator depends on its first character, the next one and, behind `!~`, the one after. -/
theorem scanPunct_congr {lx : Lexicon} {c : Char} {cs cs' : List Char} (head : cs'.head? = cs.head?)
    (second : c = '!' → cs.head? = some '~' → lx.dialect.regexpOperators = true →
      cs'.tail.head? = cs.tail.head?) : scanPunct lx c cs' = scanPunct lx c cs := by
  have next {k : Char} {tail : List Char} (h : cs = k :: tail) : ∃ tail', cs' = k :: tail' :=
    List.head?_eq_some_iff.1 (head.trans (by rw [h]; rfl))
  have other {k : Char} (h : ∀ tail, cs = k :: tail → False) (tail : List Char) :
      cs' = k :: tail → False := by
    rintro rfl
    obtain ⟨ds, rfl⟩ := List.head?_eq_some_iff.1 head.symm
    exact h ds rfl
  fun_cases scanPunct lx c cs
  case case15 h => exact scanPunct.eq_15 lx _ (other h)
  case case18 regexp h => exact (scanPunct.eq_17 lx _ (other h)).trans (if_pos regexp)
  case case19 regexp h => exact (scanPunct.eq_17 lx _ (other h)).trans (if_neg regexp)
  case case21 h => exact scanPunct.eq_19 lx _ (other h)
  case case25 h₁ h₂ h₃ => exact scanPunct.eq_23 lx _ (other h₁) (other h₂) (other h₃)
  case case28 h₁ h₂ => exact scanPunct.eq_26 lx _ (other h₁) (other h₂)
  case case30 tail regexp =>
    obtain ⟨tail', rfl⟩ := next rfl
    obtain ⟨ds, rfl⟩ := List.head?_eq_some_iff.1 (second rfl rfl regexp)
    exact if_pos regexp
  case case31 tail regexp =>
    obtain ⟨tail', rfl⟩ := next rfl
    by_cases star : ∃ ds, tail' = '*' :: ds
    · obtain ⟨ds, rfl⟩ := star
      exact if_neg regexp
    · exact (scanPunct.eq_29 lx _ fun ds hds => star ⟨ds, hds⟩).trans (if_neg regexp)
  case case32 tail h regexp =>
    obtain ⟨tail', rfl⟩ := next rfl
    have same : tail'.head? = tail.head? := second rfl rfl regexp
    refine (scanPunct.eq_29 lx _ ?_).trans (if_pos regexp)
    rintro ds rfl
    obtain ⟨es, rfl⟩ := List.head?_eq_some_iff.1 same.symm
    exact h es rfl
  case case33 tail h regexp =>
    obtain ⟨tail', rfl⟩ := next rfl
    by_cases star : ∃ ds, tail' = '*' :: ds
    · obtain ⟨ds, rfl⟩ := star
      exact if_neg regexp
    · exact (scanPunct.eq_29 lx _ fun ds hds => star ⟨ds, hds⟩).trans (if_neg regexp)
  case case35 h => exact scanPunct.eq_31 lx _ (other h)
  case case36 =>
    rw [scanPunct.eq_32]
    all_goals first
      | assumption
      | exact fun _ hc => absurd hc (by assumption)
      | exact fun tail hc =>
          other (fun t => ‹∀ tail, c = '!' → cs = '=' :: tail → False› t hc) tail
      | exact fun tail hc =>
          other (fun t => ‹∀ tail, c = '!' → cs = '~' :: tail → False› t hc) _
  all_goals first
    | rfl
    | (obtain ⟨tail', rfl⟩ := next rfl; first | rfl | simp [scanPunct, *])

/-- An operator that lies in a part of a text is read in the part alone. -/
theorem scanPunct_cut {lx : Lexicon} {c : Char} {cs rest : List Char}
    (fits : (scanPunct lx c (cs ++ rest)).2 ≤ cs.length) :
    scanPunct lx c (cs ++ rest) = scanPunct lx c cs := by
  rcases cs with _ | ⟨d, _ | ⟨e, cs⟩⟩
  · rw [List.nil_append] at fits ⊢
    fun_cases scanPunct lx c rest
    all_goals simp_all [scanPunct]
  · by_cases matching : c = '!' ∧ d = '~' ∧ lx.dialect.regexpOperators = true
    · obtain ⟨rfl, rfl, regexp⟩ := matching
      -- A star would belong to the operator.
      have noStar : ∀ tail, rest = '*' :: tail → False := by
        rintro tail rfl
        simp [scanPunct, regexp] at fits
      have noTail : ∀ tail, [] = '*' :: tail → False := by
        intro tail same
        cases same
      exact (scanPunct.eq_29 lx rest noStar).trans (scanPunct.eq_29 lx [] noTail).symm
    · exact scanPunct_congr rfl fun mark tilde regexp =>
        absurd ⟨mark, Option.some.inj tilde, regexp⟩ matching
  · exact scanPunct_congr rfl fun _ _ _ => rfl

/-- A sign begins an operator. -/
theorem scan_of_sign {lx : Lexicon} (hlx : lx.delimiter = []) (n : Nat)
    (hc : c ∈ ['=', '<', '>', '!', '~', '|']) : scan lx n c cs = scanPunct lx c cs := by
  have hat (cs : List Char) : lx.atDelimiter cs = false := by simp [Lexicon.atDelimiter, hlx]
  have name : startsName [c] = false := by
    simp only [List.mem_cons, List.not_mem_nil, or_false] at hc
    rcases hc with rfl | rfl | rfl | rfl | rfl | rfl <;> decide
  simp only [List.mem_cons, List.not_mem_nil, or_false] at hc
  rcases hc with rfl | rfl | rfl | rfl | rfl | rfl
  all_goals simp [scan, commentLead, hat, scanPlain, name, Char.isDigit]

/-- What is longer than a character as an operator is read as one. -/
theorem scan_of_long {lx : Lexicon} (hlx : lx.delimiter = []) (n : Nat)
    (long : 0 < (scanPunct lx c cs).2) : scan lx n c cs = scanPunct lx c cs := by
  have hat (cs : List Char) : lx.atDelimiter cs = false := by simp [Lexicon.atDelimiter, hlx]
  have colon (cs : List Char) : startsName (':' :: cs) = false := by
    change (isAlphabetic ':' || ':' == '_') = false
    decide
  revert long
  fun_cases scanPunct lx c cs
  all_goals first
    | exact fun long => absurd long (Nat.lt_irrefl 0)
    | (intro; rw [scan_of_sign hlx n (by decide)]; simp [scanPunct, *])
    | simp [scan, commentLead, hat, scanPlain, scanPunct, colon, Char.isDigit]

/-- A token that lies in a part of a text, in front of a break, is read in the part alone. -/
theorem scan_cut {lx : Lexicon} (hlx : lx.delimiter = []) {n : Nat} (hrest : Breaks rest)
    (hgap : ∀ more, commentLead lx.dialect.hashComments (c :: (cs ++ rest)) ≠ .comment more)
    (sound : ∀ e, (scan lx n c (cs ++ rest)).1 ≠ .error e)
    (fits : (scan lx n c (cs ++ rest)).2 ≤ cs.length) :
    scan lx n c (cs ++ rest) = scan lx n c cs := by
  have hgap' : ∀ more, commentLead lx.dialect.hashComments (c :: cs) ≠ .comment more := by
    intro more h
    obtain ⟨m, hm⟩ := exists_comment_append hrest h
    exact hgap m hm
  have punct : Agrees cs.length (scanPunct lx c (cs ++ rest)) (scanPunct lx c cs) := by
    rcases Nat.lt_or_ge cs.length (scanPunct lx c (cs ++ rest)).2 with long | inside
    · rw [scan_of_long hlx n (Nat.zero_lt_of_lt long)] at fits
      exact absurd fits (Nat.not_le.2 long)
    · have same := scanPunct_cut inside
      exact fun _ => ⟨same, same ▸ inside⟩
  refine (scan_append_of_punct hlx hrest hgap' punct).eq_of_fits ?_ sound fits
  have hat (cs : List Char) : lx.atDelimiter cs = false := by simp [Lexicon.atDelimiter, hlx]
  cases hlead : commentLead lx.dialect.hashComments (c :: cs) with
  | unterminated => exact outgrows_unterminated hlead hgap
  | comment more => exact absurd hlead (hgap' more)
  | placeholder content more =>
    have hopen : commentLead lx.dialect.hashComments (c :: cs) ≠ .unterminated := by simp [hlead]
    intro e he
    refine .inl ⟨e, ?_⟩
    rw [scan, hlead] at he
    rw [scan, commentLead_append hrest hopen hgap', hlead]
    exact he
  | none =>
    have hopen : commentLead lx.dialect.hashComments (c :: cs) ≠ .unterminated := by simp [hlead]
    unfold scan
    rw [commentLead_append hrest hopen hgap', hlead]
    simp only [hat, head?_beq_append (k := '#') rfl hrest, head?_beq_append (k := '\'') rfl hrest,
      startsDigit_append hrest, Bool.false_eq_true, if_false]
    refine Outgrows.ite (fun hmark => ?_) fun _ => ?_
    · cases cs with
      | nil => simp at hmark
      | cons d cs =>
        intro e he
        rcases lasting_placeholder cs rest hrest e he with ⟨e', h⟩ | h
        · exact .inl ⟨e', h⟩
        · exact .inr (Nat.succ_lt_succ h)
    refine Outgrows.ite (fun _ => lasting_scanString _ _ cs rest hrest) fun _ => ?_
    refine Outgrows.ite (fun _ => ?_) fun _ => ?_
    · exact Outgrows.ite (fun _ => lasting_scanString _ _ cs rest hrest)
        fun _ => lasting_scanDelimited _ cs rest hrest
    refine Outgrows.ite (fun _ => lasting_scanDelimited _ cs rest hrest) fun _ => ?_
    refine Outgrows.ite (fun _ => lasting_scanBlob cs rest hrest) fun _ => ?_
    refine Outgrows.ite (fun _ => lasting_scanNumber c cs rest hrest) fun _ => ?_
    cases decide (c = '$') && lx.dialect.dollarQuotedStrings with
    | false => exact .of_ne fun e => scanPlain_sound lx n c cs e
    | true =>
      simp only [if_true]
      cases hb : scanDollar? cs with
      | none => exact .of_ne fun e => scanPlain_sound lx n c cs e
      | some b =>
        obtain ⟨a, ha, outgrows⟩ := lasting_scanDollar? hrest hb
        rw [ha]
        exact outgrows

end Leads

section Gaps

variable {hash : Bool} {inside : Nat} {c : Char} {cs rest tail : List Char}

/-- A run that ends in a part of a text ends there whatever stands behind the part, as long as it
does not go on with another character. -/
theorem takeWhile_replace {p : Char → Bool} (htail : Turns p tail rest)
    (h : ((cs ++ rest).takeWhile p).length ≤ cs.length) :
    (cs ++ tail).takeWhile p = (cs ++ rest).takeWhile p := by
  induction cs with
  | nil =>
    have none : rest.takeWhile p = [] := List.length_eq_zero_iff.1 (Nat.le_zero.1 h)
    rw [List.nil_append, List.nil_append, none]
    cases tail with
    | nil => rfl
    | cons d tail =>
      refine List.takeWhile_cons_of_neg ?_
      rcases htail with head | turns
      · obtain ⟨ds, rfl⟩ := List.head?_eq_some_iff.1 head.symm
        intro hd
        rw [List.takeWhile_cons_of_pos hd] at none
        cases none
      · simp [turns d rfl]
  | cons d cs ih =>
    by_cases hd : p d
    · simp only [List.cons_append, List.takeWhile_cons_of_pos hd, List.length_cons] at h ⊢
      rw [ih (by omega)]
    · simp [hd]

/-- A run that ends inside a part of a text ends there whatever stands behind the part. -/
theorem takeWhile_inside {p : Char → Bool} (tail : List Char)
    (h : ((cs ++ rest).takeWhile p).length < cs.length) :
    (cs ++ tail).takeWhile p = (cs ++ rest).takeWhile p := by
  rcases List.eq_nil_or_concat cs with rfl | ⟨front, d, rfl⟩
  · exact absurd h (Nat.not_lt_zero _)
  · rw [List.concat_eq_append] at h ⊢
    simp only [List.append_assoc, List.length_append, List.length_singleton] at h ⊢
    exact takeWhile_replace (.inl rfl) (Nat.le_of_lt_succ h)

/-- A comment that ends in a part of a text is the same comment whatever may take the place of what
stands behind. -/
theorem commentLead_replace {more : Nat} (hrest : Breaks rest) (htail : Replaces tail rest)
    (h : commentLead hash (c :: (cs ++ rest)) = .comment more) (fits : more ≤ cs.length) :
    commentLead hash (c :: (cs ++ tail)) = .comment more := by
  have line {ds : List Char} (hline : lineLength (ds ++ rest) ≤ ds.length) :
      lineLength (ds ++ tail) = lineLength (ds ++ rest) :=
    congrArg List.length (takeWhile_replace (htail.turns _) hline)
  generalize ht : c :: (cs ++ rest) = text at h
  fun_cases commentLead hash text
  case case1 ds =>
    cases cs with
    | nil =>
      simp only [commentLead, CommentLead.comment.injEq] at h
      simp at fits
      omega
    | cons d ds =>
      rw [List.cons_append, List.cons.injEq, List.cons.injEq] at ht
      obtain ⟨rfl, rfl, rfl⟩ := ht
      simp only [commentLead, CommentLead.comment.injEq] at h
      simp only [List.length_cons] at fits
      have hline : lineLength (ds ++ rest) ≤ ds.length := by omega
      simp only [List.cons_append, commentLead, line hline, h]
  case case4 ds content n body placeholder =>
    simp only [commentLead, body, placeholder] at h
    cases h
    cases cs with
    | nil => simp at fits
    | cons d ds =>
      cases ht
      have closed := commentBody_cut body (by simpa using fits)
      simp only [List.cons_append, commentLead, (commentBody_append tail closed).1, placeholder]
      rfl
  case case5 ds single =>
    cases ht
    simp only [commentLead, single, if_true, CommentLead.comment.injEq] at h
    have hmark : (hash && (cs ++ tail).head? != some '#') = true := by
      rw [bne, head?_beq_append rfl (htail.breaks hrest)]
      rw [bne, head?_beq_append rfl hrest] at single
      exact single
    rw [commentLead, if_pos hmark, line (by omega), h]
  case case6 ds single =>
    cases ht
    rw [commentLead, if_neg single] at h
    cases h
  all_goals simp_all [commentLead]

/-- A break opens no comment. -/
theorem commentLead_of_isBreak (hc : isBreak c) (cs : List Char) :
    commentLead hash (c :: cs) = .none :=
  commentLead_of_class (by decide) (by decide) (by decide) hc

/-- A gap that has ended goes on with nothing that opens like the rest. -/
theorem gapLength_eq_zero_of_replaces (hrest : Breaks rest) (htail : Replaces tail rest)
    (h : gapLength hash inside rest = 0) : gapLength hash inside tail = 0 := by
  cases tail with
  | nil => rw [gapLength]
  | cons d tail =>
    obtain ⟨rest, rfl⟩ : ∃ r, rest = d :: r := by
      rcases htail with hnil | hhead
      · cases hnil
      · exact List.head?_eq_some_iff.1 hhead.symm
    cases inside with
    | succ inside => simp [gapLength] at h
    | zero =>
      by_cases blank : isBlank d
      · simp [gapLength, blank] at h
      · rw [gapLength, if_neg blank, commentLead_of_isBreak hrest.isBreak]

/-- A gap that ends in a part of a text ends there if the text is cut behind the part. A gap that is
the whole part is one whatever may take the place of what stands behind. -/
theorem gapLength_replace (hrest : Breaks rest) (htail : Replaces tail rest)
    (h : gapLength hash inside (cs ++ rest) ≤ cs.length)
    (hwhole : tail = [] ∨ gapLength hash inside (cs ++ rest) = cs.length) :
    gapLength hash inside (cs ++ tail) = gapLength hash inside (cs ++ rest) := by
  induction hn : cs.length using Nat.strongRecOn generalizing cs inside with
  | ind n ih =>
    subst hn
    cases cs with
    | nil =>
      simp only [List.nil_append] at h ⊢
      rw [Nat.le_zero.1 h, gapLength_eq_zero_of_replaces hrest htail (Nat.le_zero.1 h)]
    | cons c cs =>
      cases inside with
      | succ inside =>
        simp only [List.cons_append, gapLength, List.length_cons, Nat.add_right_cancel_iff,
          Nat.add_le_add_iff_right] at h hwhole ⊢
        exact ih cs.length (Nat.lt_succ_self _) h hwhole rfl
      | zero =>
        rw [List.cons_append, gapLength] at h hwhole
        rw [List.cons_append, List.cons_append, gapLength, gapLength]
        by_cases blank : isBlank c
        · simp only [if_pos blank, List.length_cons, Nat.add_right_cancel_iff,
            Nat.add_le_add_iff_right] at h hwhole ⊢
          exact ih cs.length (Nat.lt_succ_self _) h hwhole rfl
        · simp only [if_neg blank] at h hwhole ⊢
          split at h
          · rename_i more lead
            simp only [lead, List.length_cons, Nat.add_right_cancel_iff,
              Nat.add_le_add_iff_right] at h hwhole ⊢
            by_cases fits : more ≤ cs.length
            · rw [commentLead_replace hrest htail lead fits]
              exact congrArg (· + 1) (ih cs.length (Nat.lt_succ_self _) h hwhole rfl)
            · -- The comment is the rest of the text, so nothing stands behind the part.
              have hall := gapLength_inside hash more (cs ++ rest)
              rw [List.length_take, List.length_append] at hall
              obtain rfl : rest = [] := List.length_eq_zero_iff.1 (by omega)
              obtain rfl : tail = [] := by
                rcases htail with hnil | hhead
                · exact hnil
                · exact List.head?_eq_none_iff.1 hhead
              rw [lead]
          · rename_i nolead
            have hnil : tail = [] := by
              rcases hwhole with hnil | hwhole
              · exact hnil
              · split at hwhole
                · exact absurd ‹_› (nolead _)
                · simp at hwhole
            subst hnil
            rw [List.append_nil]
            split
            · rename_i more lead
              obtain ⟨m, hm⟩ := exists_comment_append hrest lead
              exact absurd hm (nolead m)
            · rfl

/-- A line that goes on with blanks behind a part of a text fills the part. -/
theorem lineLength_of_lt {b : List Char} (h : cs.length < lineLength (cs ++ b)) :
    lineLength cs = cs.length := by
  by_cases full : (cs.takeWhile (· != '\n')).length = cs.length
  · exact full
  · rw [lineLength, List.takeWhile_append, if_neg full] at h
    exact absurd h (Nat.not_lt.2 (length_takeWhile_le _ cs))

/-- A comment that ends in blanks behind a part of a text fills the part when the blanks are cut off.
A block comment cannot, for its last character is no blank. -/
theorem commentLead_cut_blanks {b : List Char} {more : Nat} (hb : AllBlank b)
    (h : commentLead hash (c :: (cs ++ b)) = .comment more) (beyond : cs.length < more) :
    ∃ m, cs.length ≤ m ∧ commentLead hash (c :: cs) = .comment m := by
  have solid {k : Char} (hk : isBlank k = false) {ds : List Char} (hds : k :: ds = cs ++ b) :
      ∃ es, cs = k :: es ∧ ds = es ++ b := by
    cases cs with
    | nil =>
      have blank := hb k (by rw [← List.nil_append b, ← hds]; exact List.mem_cons_self)
      rw [hk] at blank
      cases blank
    | cons d es =>
      cases hds
      exact ⟨es, rfl, rfl⟩
  generalize ht : c :: (cs ++ b) = text at h
  fun_cases commentLead hash text
  case case1 ds =>
    obtain ⟨rfl, hds⟩ := List.cons_eq_cons.1 ht
    obtain ⟨es, rfl, rfl⟩ := solid (by decide) hds.symm
    simp only [commentLead, CommentLead.comment.injEq] at h
    rw [List.length_cons] at beyond
    have full : lineLength es = es.length := lineLength_of_lt (b := b) (by omega)
    exact ⟨lineLength es + 1, Nat.le_of_eq (congrArg (· + 1) full.symm), rfl⟩
  case case4 ds content n body placeholder =>
    obtain ⟨rfl, hds⟩ := List.cons_eq_cons.1 ht
    obtain ⟨es, rfl, rfl⟩ := solid (by decide) hds.symm
    simp only [commentLead, body, placeholder] at h
    cases h
    have last := getLast?_commentBody body
    have inside := (commentBody_append [] body).2
    rw [List.length_append] at inside
    rw [List.length_cons] at beyond
    rw [List.take_append, List.take_of_length_le (by omega)] at last
    cases tail : b.take (n - es.length) with
    | nil =>
      have := congrArg List.length tail
      simp only [List.length_take, List.length_nil] at this
      omega
    | cons x xs =>
      rw [tail, List.getLast?_append, List.getLast?_cons, Option.some_or,
        ← List.getLast?_cons] at last
      have blank := hb '/' (List.mem_of_mem_take (tail ▸ List.mem_of_getLast? last))
      cases blank
  case case5 ds single =>
    obtain ⟨rfl, rfl⟩ := List.cons_eq_cons.1 ht
    simp only [commentLead, single, if_true, CommentLead.comment.injEq] at h
    have full : lineLength cs = cs.length := lineLength_of_lt (b := b) (by omega)
    refine ⟨lineLength cs, Nat.le_of_eq full.symm, ?_⟩
    have mark : (hash && cs.head? != some '#') = true := by
      cases cs with
      | nil => simp_all
      | cons d ds => exact single
    rw [commentLead, if_pos mark]
  case case6 ds single =>
    cases ht
    rw [commentLead, if_neg single] at h
    cases h
  all_goals simp_all [commentLead]

/-- A gap that ends in blanks is still one when the blanks are cut off. -/
theorem gapLength_cut_blanks {b : List Char} (hb : AllBlank b)
    (h : gapLength hash inside (cs ++ b) = (cs ++ b).length) :
    gapLength hash inside cs = cs.length := by
  induction hn : cs.length using Nat.strongRecOn generalizing cs inside with
  | ind n ih =>
    subst hn
    cases cs with
    | nil => rw [gapLength.eq_def]; rfl
    | cons c cs =>
      cases inside with
      | succ inside =>
        simp only [List.cons_append, gapLength, List.length_cons, Nat.add_right_cancel_iff] at h ⊢
        exact ih cs.length (Nat.lt_succ_self _) h rfl
      | zero =>
        rw [List.cons_append, gapLength] at h
        rw [gapLength]
        by_cases blank : isBlank c
        · simp only [if_pos blank, List.length_cons, Nat.add_right_cancel_iff] at h ⊢
          exact ih cs.length (Nat.lt_succ_self _) h rfl
        · simp only [if_neg blank] at h ⊢
          split at h
          · rename_i more lead
            simp only [List.length_cons, Nat.add_right_cancel_iff] at h
            by_cases fits : more ≤ cs.length
            · have stop : Ends b := fun c hc => isStop_of_isBlank (hb c (List.mem_of_mem_head? hc))
              have replaced := commentLead_replace stop.breaks (.inl rfl) lead fits
              rw [List.append_nil] at replaced
              simp only [replaced, List.length_cons, Nat.add_right_cancel_iff]
              exact ih cs.length (Nat.lt_succ_self _) h rfl
            · obtain ⟨m, hm, leadCut⟩ := commentLead_cut_blanks hb lead (by omega)
              simp only [leadCut, List.length_cons, Nat.add_right_cancel_iff]
              rw [gapLength_inside, List.take_of_length_le hm, List.drop_of_length_le hm]
              rw [gapLength, Nat.add_zero]
          · simp at h

end Gaps

end BoundSql.Token
