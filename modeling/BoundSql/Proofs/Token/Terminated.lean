import BoundSql.Proofs.Token.Front

/-!
# Tokens in front of a terminator

The token in front of the terminator of a statement, a semicolon or a custom delimiter, knows at most
one character of what stands behind the terminator. That character may become a dash, unless the
terminator is one of the few that make one thing with the dash: `Firm`. The main statements are
`scan_keeps` and `scan_terminator`. `Locality` and `Cut` are about what stands behind a stop.
-/

namespace BoundSql.Token

open Text

/-- The text that ends a statement, the custom delimiter being given. -/
def terminator (delimiter : List Char) : List Char := if delimiter = [] then [';'] else delimiter

theorem terminator_ne_nil (delimiter : List Char) : terminator delimiter ≠ [] := by
  unfold terminator
  split
  · exact List.cons_ne_nil _ _
  · assumption

/-- The delimiter makes nothing together with a dash behind it: neither a comment nor the exponent of
a number. -/
def Firm (delimiter : List Char) : Prop := delimiter ∉ [['-'], ['#'], ['e'], ['E']]

instance (delimiter : List Char) : Decidable (Firm delimiter) := inferInstanceAs (Decidable (_ ∉ _))

/-- The text `x'` begins like `x`, or with a dash. -/
def OrDash (x x' : List Char) : Prop := x'.head? = x.head? ∨ x'.head? = some '-'

/-- What a token in front of a text can know of the text, unless it is a number, is the same of `t`
and `t'`. -/
structure SameStart (lx : Lexicon) (t t' : List Char) : Prop where
  head : t'.head? = t.head?
  delimiter : ∀ front, lx.atDelimiter (front ++ t') = lx.atDelimiter (front ++ t)

/-- What the token in front of a text can know of the text is the same of `t` and `t'`. -/
structure Alike (lx : Lexicon) (t t' : List Char) : Prop extends SameStart lx t t' where
  /-- A dash may take the place of the second character, but not of a part of an exponent. -/
  second : t'.tail.head? = t.tail.head? ∨
    t'.tail.head? = some '-' ∧ ∀ c, t.head? = some c → c ≠ 'e' ∧ c ≠ 'E'

/-- The answer `b` is `a` again if `a` is no error and no longer than `n`. -/
def Repeats (n : Nat) (a b : TokenKind × Nat) : Prop :=
  (∀ e, a.1 ≠ .error e) → a.2 ≤ n → b = a

theorem Repeats.ite {n : Nat} {p : Prop} [Decidable p] {a b a' b' : TokenKind × Nat}
    (h : p → Repeats n a b) (h' : ¬ p → Repeats n a' b') :
    Repeats n (if p then a else a') (if p then b else b') := by
  by_cases hp : p
  · simpa only [if_pos hp] using h hp
  · simpa only [if_neg hp] using h' hp

/-- A scanner takes the same token in front of `t'` as in front of `t`, if the token is no error and
ends there. -/
def Keeps (t t' : List Char) (scanner : List Char → TokenKind × Nat) : Prop :=
  ∀ cs, Repeats cs.length (scanner (cs ++ t)) (scanner (cs ++ t'))

variable {lx : Lexicon} {t t' : List Char}

theorem exists_cons_of_head? (head : t'.head? = t.head?) : t = [] ∧ t' = [] ∨
    ∃ c ds ds', t = c :: ds ∧ t' = c :: ds' := by
  cases t with
  | nil => exact .inl ⟨rfl, List.head?_eq_none_iff.1 head⟩
  | cons c ds =>
    obtain ⟨ds', rfl⟩ := List.head?_eq_some_iff.1 head
    exact .inr ⟨c, ds, ds', rfl, rfl⟩

theorem keeps_scanString {quote : Char} (turns : Turns (· == quote) t' t) (d : Dialect) :
    Keeps t t' (scanString d quote) := by
  intro cs sound fits
  unfold scanString at sound fits ⊢
  cases found : quotedBody quote d.backslashEscapes (cs ++ t) with
  | none =>
    rw [found] at sound
    exact absurd rfl (sound _)
  | some answer =>
    rw [found] at fits
    rw [quotedBody_replace turns found fits]

theorem keeps_scanDelimited {quote : Char} (turns : Turns (· == quote) t' t) :
    Keeps t t' (scanDelimited quote) := by
  intro cs sound fits
  unfold scanDelimited at sound fits ⊢
  cases found : quotedBody quote false (cs ++ t) with
  | none =>
    rw [found] at sound
    exact absurd rfl (sound _)
  | some answer =>
    rw [found] at fits
    simp only [quotedBody_replace turns found fits, List.take_append_of_le_length fits]

theorem keeps_scanBlob (t t' : List Char) : Keeps t t' scanBlob := by
  intro cs sound fits
  unfold scanBlob at sound fits ⊢
  simp only at sound fits ⊢
  generalize (fun c => isHexDigit c || isBlank c) = p at sound fits ⊢
  have long : ((cs ++ t).tail.takeWhile p).length + 2 ≤ cs.length := by
    split at fits
    · rename_i nothing
      rw [nothing] at sound
      exact absurd rfl (sound _)
    · split at fits <;> exact fits
    · exact fits
  cases cs with
  | nil => simp at long
  | cons c cs =>
    simp only [List.cons_append, List.tail_cons, List.length_cons] at sound long ⊢
    have run := takeWhile_inside t' (show ((cs ++ t).takeWhile p).length < cs.length by omega)
    have behind (x : List Char) : (cs ++ x).drop ((cs ++ t).takeWhile p).length =
        cs.drop ((cs ++ t).takeWhile p).length ++ x := List.drop_append_of_le_length (by omega)
    simp only [run, behind] at sound ⊢
    cases tail : cs.drop ((cs ++ t).takeWhile p).length with
    | nil =>
      have := List.drop_eq_nil_iff.1 tail
      omega
    | cons d ds =>
      by_cases hd : d = '\''
      · subst hd
        rfl
      · exact absurd (by simp [tail, hd]) (sound .invalidBlobCharacter)

/-- A fraction has a digit behind its point. -/
theorem fractionOf_eq_nil {cs : List Char} (short : (fractionOf cs).length ≤ 1) :
    fractionOf cs = [] := by
  fun_cases fractionOf cs
  case case1 d ds digit => simp [fractionOf, digit] at short
  all_goals rfl

/-- An exponent has a digit or a sign behind its mark. -/
theorem exponentOf_eq_nil {cs : List Char} (short : (exponentOf cs).length ≤ 1) :
    exponentOf cs = [] := by
  fun_cases exponentOf cs
  case case2 e d ds mark sign =>
    rw [exponentOf, if_neg mark, if_pos sign] at short
    simp at short
  case case3 e d ds mark sign digit =>
    rw [exponentOf, if_neg mark, if_neg sign, if_pos digit] at short
    simp [digit] at short
  all_goals rfl

/-- A fraction that ends in front of `t` is the same in front of `t'`, as long as none begins right
in front of it. -/
theorem fractionOf_replace (turns : Turns Char.isDigit t' t) {cs : List Char}
    (fits : (fractionOf (cs ++ t)).length ≤ cs.length)
    (short : cs.length ≤ 1 → fractionOf (cs ++ t') = []) :
    fractionOf (cs ++ t') = fractionOf (cs ++ t) := by
  match cs with
  | [] => rw [short (Nat.zero_le 1), fractionOf_eq_nil (Nat.le_succ_of_le fits)]
  | [c] => rw [short (Nat.le_refl 1), fractionOf_eq_nil fits]
  | c :: d :: cs =>
    by_cases point : c = '.'
    · subst point
      simp only [List.cons_append, fractionOf] at fits ⊢
      split
      · rename_i digit
        rw [if_pos digit] at fits
        have run := @takeWhile_replace (d :: cs) _ _ Char.isDigit turns (by simpa using fits)
        exact congrArg ('.' :: ·) run
      · rfl
    · simp [fractionOf, point]

/-- An exponent that ends in front of `t` is the same in front of `t'`, as long as none begins right
in front of it. -/
theorem exponentOf_replace (turns : Turns Char.isDigit t' t) {cs : List Char}
    (fits : (exponentOf (cs ++ t)).length ≤ cs.length)
    (short : cs.length ≤ 1 → exponentOf (cs ++ t') = []) :
    exponentOf (cs ++ t') = exponentOf (cs ++ t) := by
  match cs with
  | [] => rw [short (Nat.zero_le 1), exponentOf_eq_nil (Nat.le_succ_of_le fits)]
  | [c] => rw [short (Nat.le_refl 1), exponentOf_eq_nil fits]
  | c :: d :: cs =>
    simp only [List.cons_append, exponentOf] at fits ⊢
    split
    · rfl
    · rename_i mark
      rw [if_neg mark] at fits
      split
      · rename_i sign
        rw [if_pos sign] at fits
        rw [@takeWhile_replace cs _ _ Char.isDigit turns (by simpa using fits)]
      · rename_i sign
        rw [if_neg sign] at fits
        split
        · rename_i digit
          rw [if_pos digit] at fits
          have run := @takeWhile_replace (d :: cs) _ _ Char.isDigit turns (by simpa using fits)
          exact congrArg (c :: ·) run
        · rfl

/-- Where no fraction begins right in front of `t`, none does in front of `t'`. -/
theorem Alike.fractionOf_eq_nil (same : Alike lx t t') {cs : List Char} (hcs : cs.length ≤ 1)
    (none : fractionOf (cs ++ t) = []) : fractionOf (cs ++ t') = [] := by
  rcases exists_cons_of_head? same.head with ⟨rfl, rfl⟩ | ⟨d, ds, ds', rfl, rfl⟩
  · exact none
  match cs with
  | [] =>
    by_cases point : d = '.'
    · subst point
      have dash : ∀ k ks, ds' = k :: ks → k.isDigit = false := by
        rintro k ks rfl
        rcases same.second with second | ⟨second, -⟩
        · cases ds with
          | nil => cases second
          | cons e es =>
            cases second
            by_cases digit : k.isDigit
            · simp [fractionOf, digit] at none
            · simpa using digit
        · cases second
          decide
      cases ds' with
      | nil => rfl
      | cons k ks => simp [fractionOf, dash k ks rfl]
    · simp [fractionOf, point]
  | [c] =>
    by_cases point : c = '.'
    · subst point
      by_cases digit : d.isDigit
      · simp [fractionOf, digit] at none
      · simp [fractionOf, digit]
    · simp [fractionOf, point]

/-- Where no exponent begins right in front of `t`, none does in front of `t'`. -/
theorem Alike.exponentOf_eq_nil (same : Alike lx t t') {cs : List Char} (hcs : cs.length ≤ 1)
    (none : exponentOf (cs ++ t) = []) : exponentOf (cs ++ t') = [] := by
  rcases exists_cons_of_head? same.head with ⟨rfl, rfl⟩ | ⟨d, ds, ds', rfl, rfl⟩
  · exact none
  match cs with
  | [] =>
    rw [List.nil_append] at none ⊢
    by_cases mark : (d != 'e' && d != 'E') = true
    · cases ds' with
      | nil => rfl
      | cons k ks => simp [exponentOf, mark]
    · rcases same.second with second | ⟨-, noMark⟩
      · cases ds with
        | nil =>
          obtain rfl : ds' = [] := List.head?_eq_none_iff.1 second
          rfl
        | cons e es =>
          obtain ⟨es', rfl⟩ := List.head?_eq_some_iff.1 second
          simp only [exponentOf, if_neg mark] at none ⊢
          split at none
          · cases none
          · rename_i noSign
            split at none
            · cases none
            · rename_i noDigit
              rw [if_neg noSign, if_neg noDigit]
      · obtain ⟨small, capital⟩ := noMark d rfl
        simp [small, capital] at mark
  | [c] =>
    simp only [List.cons_append, List.nil_append, exponentOf] at none ⊢
    split
    · rfl
    · rename_i mark
      rw [if_neg mark] at none
      split
      · rename_i sign
        rw [if_pos sign] at none
        cases none
      · rename_i sign
        rw [if_neg sign] at none
        split
        · rename_i digit
          simp [digit] at none
        · rfl

theorem keeps_scanNumber (same : Alike lx t t') (c : Char) :
    Keeps t t' fun cs => scanNumber (c :: cs) := by
  intro cs _ fits
  simp only at fits ⊢
  rw [← List.cons_append, ← List.cons_append]
  rw [← List.cons_append] at fits
  have long : (c :: cs).length = cs.length + 1 := rfl
  generalize c :: cs = text at fits long ⊢
  unfold scanNumber at fits ⊢
  simp only [List.length_append] at fits ⊢
  have whole := takeWhile_replace (p := Char.isDigit) (.inl same.head)
    (show ((text ++ t).takeWhile Char.isDigit).length ≤ text.length by omega)
  rw [whole]
  generalize (text ++ t).takeWhile Char.isDigit = digits at fits ⊢
  have afterWhole (x : List Char) : (text ++ x).drop digits.length = text.drop digits.length ++ x :=
    List.drop_append_of_le_length (by omega)
  simp only [afterWhole] at fits ⊢
  have room : (text.drop digits.length).length = text.length - digits.length := List.length_drop
  generalize text.drop digits.length = rest at fits room ⊢
  have noFraction (short : rest.length ≤ 1) : fractionOf (rest ++ t') = [] :=
    same.fractionOf_eq_nil short (fractionOf_eq_nil (by omega))
  rw [fractionOf_replace (.inl same.head) (by omega) noFraction]
  generalize fractionOf (rest ++ t) = decimals at fits ⊢
  have afterDecimals (x : List Char) : (rest ++ x).drop decimals.length =
      rest.drop decimals.length ++ x := List.drop_append_of_le_length (by omega)
  simp only [afterDecimals] at fits ⊢
  have left : (rest.drop decimals.length).length = rest.length - decimals.length := List.length_drop
  generalize rest.drop decimals.length = marks at fits left ⊢
  have noExponent (short : marks.length ≤ 1) : exponentOf (marks ++ t') = [] :=
    same.exponentOf_eq_nil short (exponentOf_eq_nil (by omega))
  rw [exponentOf_replace (.inl same.head) (by omega) noExponent]

/-- Which character stands in front of `t`, or first in it, is the same of `t'`. -/
theorem head?_replace (head : t'.head? = t.head?) (cs : List Char) :
    (cs ++ t').head? = (cs ++ t).head? := by
  rw [List.head?_append, List.head?_append, head]

theorem keeps_scanHost (head : t'.head? = t.head?) (n : Nat) (sign : Char) :
    Keeps t t' (scanHost n sign) := by
  intro cs _ fits
  unfold scanHost at fits ⊢
  simp only [head?_replace head] at fits ⊢
  generalize hname : (if ((cs ++ t).head?.map Char.isDigit).getD false = true then
    (cs ++ t).takeWhile Char.isDigit else if sign = '?' then [] else (cs ++ t).takeWhile isWordChar) =
      name at fits ⊢
  have short : name.length ≤ cs.length := by
    by_cases nonempty : name = []
    · simp [nonempty]
    · simpa [nonempty] using fits
  have again : (if ((cs ++ t).head?.map Char.isDigit).getD false = true then
      (cs ++ t').takeWhile Char.isDigit else
        if sign = '?' then [] else (cs ++ t').takeWhile isWordChar) = name := by
    rw [← hname] at short ⊢
    split
    · rename_i digit
      rw [if_pos digit] at short
      exact takeWhile_replace (.inl head) short
    · rename_i digit
      rw [if_neg digit] at short
      split
      · rfl
      · rename_i word
        rw [if_neg word] at short
        exact takeWhile_replace (.inl head) short
  rw [again]

theorem keeps_scanSystem (turns : Turns (fun c => isWordChar c || c == '.') t' t) :
    Keeps t t' scanSystem := by
  intro cs _ fits
  cases cs with
  | nil => simp [scanSystem] at fits
  | cons c cs =>
    simp only [scanSystem, List.cons_append, List.tail_cons, List.length_cons,
      Nat.add_le_add_iff_right] at fits ⊢
    rw [takeWhile_replace turns fits]

theorem keeps_scanPunct (head : t'.head? = t.head?) (lx : Lexicon) (c : Char) :
    Keeps t t' (scanPunct lx c) := by
  intro cs _ fits
  refine scanPunct_congr (head?_replace head cs) fun mark tilde regexp => ?_
  subst mark
  match cs with
  | [] =>
    -- Behind `!` the tilde would belong to the token.
    obtain ⟨ds, rfl⟩ := List.head?_eq_some_iff.1 tilde
    rw [List.nil_append] at fits
    by_cases star : ∃ es, ds = '*' :: es
    · obtain ⟨es, rfl⟩ := star
      simp [scanPunct, regexp] at fits
    · rw [scanPunct.eq_29 lx _ fun es hes => star ⟨es, hes⟩, if_pos regexp] at fits
      simp at fits
  | [_] => exact head
  | _ :: _ :: _ => rfl

theorem startsName_congr {cs cs' : List Char} (head : cs'.head? = cs.head?) :
    startsName cs' = startsName cs := by
  rcases exists_cons_of_head? head with ⟨rfl, rfl⟩ | ⟨c, ds, ds', rfl, rfl⟩ <;> rfl

theorem startsDigit_congr {cs cs' : List Char} (head : cs'.head? = cs.head?) :
    startsDigit cs' = startsDigit cs := by
  rcases exists_cons_of_head? head with ⟨rfl, rfl⟩ | ⟨c, ds, ds', rfl, rfl⟩ <;> rfl

theorem nameLength_replace (turns : Turns isNameChar t' t)
    (stop : ∀ front, lx.atDelimiter (front ++ t') = lx.atDelimiter (front ++ t)) {cs : List Char}
    (fits : nameLength lx (cs ++ t) ≤ cs.length) :
    nameLength lx (cs ++ t') = nameLength lx (cs ++ t) := by
  induction cs with
  | nil =>
    have here := stop []
    have none : nameLength lx t = 0 := Nat.le_zero.1 fits
    rw [List.nil_append, List.nil_append] at here ⊢
    rw [none]
    cases t' with
    | nil => rfl
    | cons d ds =>
      rw [nameLength, here]
      refine if_neg fun more => ?_
      rcases turns with head | turns
      · obtain ⟨es, rfl⟩ := List.head?_eq_some_iff.1 head.symm
        simp [nameLength, more] at none
      · simp [turns d rfl] at more
  | cons c cs ih =>
    have here := stop (c :: cs)
    simp only [List.cons_append, nameLength] at fits here ⊢
    rw [here]
    split
    · rename_i more
      rw [if_pos more] at fits
      rw [ih (by simpa using fits)]
    · rfl

theorem keeps_scanName (turns : Turns isNameChar t' t)
    (stop : ∀ front, lx.atDelimiter (front ++ t') = lx.atDelimiter (front ++ t)) (c : Char) :
    Keeps t t' (scanName lx c) := by
  intro cs _ fits
  have more : nameLength lx (cs ++ t) ≤ cs.length := fits
  simp only [scanName, nameLength_replace turns stop more, List.take_append_of_le_length more]

theorem keeps_scanPlain (same : SameStart lx t t') (n : Nat) (c : Char) :
    Keeps t t' (scanPlain lx n c) := by
  intro cs
  have head := head?_replace same.head cs
  unfold scanPlain
  rw [startsName_congr head, head]
  refine Repeats.ite (fun _ => keeps_scanName (.inl same.head) same.delimiter c cs) fun _ => ?_
  refine Repeats.ite (fun _ => keeps_scanSystem (.inl same.head) cs) fun _ => ?_
  exact Repeats.ite (fun _ => keeps_scanHost same.head n c cs)
    fun _ => keeps_scanPunct same.head lx c cs

/-- A dollar-quoted string that ends in front of `t` is found again. -/
theorem scanDollar?_replace (t' : List Char) {cs : List Char} {a : TokenKind × Nat}
    (h : scanDollar? (cs ++ t) = some a) (sound : ∀ e, a.1 ≠ .error e) (fits : a.2 ≤ cs.length) :
    scanDollar? (cs ++ t') = some a := by
  obtain ⟨name, body, tag, spelled, noDigit, ⟨n, found, rfl⟩ | rfl⟩ := scanDollar?_eq_some h
  · -- Both tags stand in front of `t`.
    obtain ⟨rest, rfl⟩ : name ++ ['$'] <+: cs := by
      refine List.prefix_of_prefix_length_le ⟨body, ?_⟩ (List.prefix_append cs t) ?_
      · simp [spelled]
      · simp only [List.length_append, List.length_singleton]
        omega
    obtain rfl : rest ++ t = body := by simpa using spelled
    simp only [List.length_append, List.length_singleton] at fits
    have room : n + ('$' :: name ++ ['$']).length ≤ rest.length := by
      simp only [List.length_append, List.length_cons, List.length_nil]
      omega
    have again := (find?_append t' (find?_cut found room)).1
    have short : ((name ++ ['$'] ++ rest ++ t).takeWhile isWordChar).length <
        (name ++ ['$'] ++ rest).length := by
      rw [tag]
      simp
    have run := takeWhile_inside t' short
    rw [tag] at run
    have content (x : List Char) : (rest ++ x).take n = rest.take n :=
      List.take_append_of_le_length (by omega)
    have whole : name ++ ['$'] ++ rest ++ t' = name ++ '$' :: (rest ++ t') := by simp
    rw [content, ← content t']
    rw [whole] at run ⊢
    exact scanDollar?_of_tag run noDigit again
  · exact absurd rfl (sound _)

theorem isWordChar_of_isDigit {c : Char} (h : c.isDigit) : isWordChar c := by
  have small : c.toNat < asciiLimit := by
    simp only [Char.isDigit, Bool.and_eq_true, decide_eq_true_eq] at h
    exact Nat.lt_of_le_of_lt h.2 (by decide)
  simp [isWordChar, isAlphanumeric, isNumeric, small, h]

/-- Where no dollar-quoted string begins, but a host parameter that ends in front of `t`, none begins
in front of `t'`. -/
theorem scanDollar?_replace_none (head : t'.head? = t.head?) {cs : List Char} {n : Nat}
    (h : scanDollar? (cs ++ t) = none) (fits : (scanHost n '$' (cs ++ t)).2 ≤ cs.length) :
    scanDollar? (cs ++ t') = none := by
  have first := head?_replace head cs
  by_cases digit : ((cs ++ t).head?.map Char.isDigit).getD false = true
  · -- A tag does not begin with a digit.
    have tag : (((cs ++ t').takeWhile isWordChar).head?.map Char.isDigit).getD false = true := by
      rw [List.head?_takeWhile, first]
      cases hd : (cs ++ t).head? with
      | none => simp [hd] at digit
      | some d =>
        rw [hd] at digit
        have word : isWordChar d := isWordChar_of_isDigit digit
        rw [Option.filter_some, if_pos word]
        exact digit
    unfold scanDollar?
    simp only [tag, if_true]
    split <;> rfl
  · have short : ((cs ++ t).takeWhile isWordChar).length ≤ cs.length := by
      simp only [scanHost, if_neg digit] at fits
      by_cases nonempty : (cs ++ t).takeWhile isWordChar = []
      · simp [nonempty]
      · simpa [nonempty] using fits
    unfold scanDollar? at h ⊢
    simp only [takeWhile_replace (.inl head) short] at h ⊢
    generalize (cs ++ t).takeWhile isWordChar = name at h short ⊢
    have inside (x : List Char) : (cs ++ x).drop name.length = cs.drop name.length ++ x :=
      List.drop_append_of_le_length short
    rw [inside] at h ⊢
    rcases exists_cons_of_head? (head?_replace head (cs.drop name.length)) with
      ⟨-, nothing⟩ | ⟨c, ds, ds', this, that⟩
    · rw [nothing]
    · rw [this] at h
      rw [that]
      by_cases dollar : c = '$'
      · subst dollar
        simp only at h ⊢
        split at h
        · rename_i digit
          exact if_pos digit
        · split at h <;> cases h
      · simp [dollar]

/-- A placeholder without a comment is its body. -/
theorem placeholder_of_body {cs : List Char}
    (h : ∀ inner, cs.drop (cs.takeWhile fun c => c == ' ' || c == '\t').length ≠ '/' :: '*' :: inner) :
    Placeholder.scan cs = (Placeholder.toKind (Placeholder.ofBody (Placeholder.bodyOf cs)),
      (Placeholder.bodyOf cs).length) := by
  unfold Placeholder.scan
  dsimp only
  split
  · exact absurd ‹_› (h _)
  · rfl

/-- A body that ends in front of `t` is the same in front of `t'`. -/
theorem bodyOf_replace (head : t'.head? = t.head?) {a : Char} {cs : List Char}
    (fits : (Placeholder.bodyOf (a :: cs ++ t)).length ≤ (a :: cs).length) :
    Placeholder.bodyOf (a :: cs ++ t') = Placeholder.bodyOf (a :: cs ++ t) := by
  simp only [List.cons_append, Placeholder.bodyOf] at fits ⊢
  split
  · rename_i sign
    rw [if_pos sign] at fits
    rw [takeWhile_replace (.inl head) (by simpa using fits)]
  · rename_i sign
    rw [if_neg sign] at fits
    exact @takeWhile_replace (a :: cs) _ _ Placeholder.isBodyChar (.inl head) fits

/-- A placeholder with a comment that ends in front of `t` is found again. -/
theorem placeholder_comment_replace (head : t'.head? = t.head?) {cs inner : List Char}
    (opened : (cs ++ t).drop ((cs ++ t).takeWhile fun c => c == ' ' || c == '\t').length =
      '/' :: '*' :: inner) :
    Repeats cs.length (Placeholder.scan (cs ++ t)) (Placeholder.scan (cs ++ t')) := by
  intro sound fits
  unfold Placeholder.scan at sound fits ⊢
  simp only [opened] at sound fits ⊢
  generalize (fun c => c == ' ' || c == '\t') = p at sound fits opened ⊢
  cases body : commentBody 0 inner with
  | none =>
    simp only [body] at sound
    exact absurd rfl (sound _)
  | some found =>
    obtain ⟨content, n⟩ := found
    simp only [body] at fits ⊢
    have run := takeWhile_replace (p := p) (.inl head)
      (show ((cs ++ t).takeWhile p).length ≤ cs.length by omega)
    have inside (x : List Char) : (cs ++ x).drop ((cs ++ t).takeWhile p).length =
        cs.drop ((cs ++ t).takeWhile p).length ++ x := List.drop_append_of_le_length (by omega)
    have room : (cs.drop ((cs ++ t).takeWhile p).length).length =
        cs.length - ((cs ++ t).takeWhile p).length := List.length_drop
    rw [run, inside]
    rw [inside] at opened
    generalize ((cs ++ t).takeWhile p).length = blanks at fits opened room ⊢
    generalize cs.drop blanks = rest at opened room ⊢
    match rest with
    | [] =>
      rw [List.length_nil] at room
      omega
    | [d] =>
      rw [List.length_singleton] at room
      omega
    | d :: e :: rest =>
      cases opened
      simp only [List.length_cons] at room
      have closed := commentBody_cut body (by omega)
      simp only [List.cons_append, (commentBody_append t' closed).1]

theorem keeps_placeholder (head : t'.head? = t.head?) : Keeps t t' Placeholder.scan := by
  intro cs sound fits
  by_cases comment : ∃ inner,
      (cs ++ t).drop ((cs ++ t).takeWhile fun c => c == ' ' || c == '\t').length = '/' :: '*' :: inner
  · obtain ⟨inner, opened⟩ := comment
    exact placeholder_comment_replace head opened sound fits
  · have answer := placeholder_of_body fun inner h => comment ⟨inner, h⟩
    rw [answer] at sound fits ⊢
    have named : Placeholder.bodyOf (cs ++ t) ≠ [] := by
      intro nothing
      rw [nothing] at sound
      exact sound _ rfl
    cases cs with
    | nil => exact absurd (List.length_eq_zero_iff.1 (Nat.le_zero.1 fits)) named
    | cons a cs =>
      -- A name begins neither with a blank nor with the mark of a comment.
      have first {k : Char} (hk : ∀ tail, Placeholder.bodyOf (k :: tail) = []) : a ≠ k := by
        rintro rfl
        exact named (hk _)
      have slash : a ≠ '/' := first fun _ => rfl
      have space : a ≠ ' ' := first fun _ => rfl
      have tab : a ≠ '\t' := first fun _ => rfl
      have again := bodyOf_replace head fits
      rw [placeholder_of_body, again]
      rw [List.cons_append, List.takeWhile_cons_of_neg (by simp [space, tab])]
      intro inner opened
      exact slash (List.cons.inj opened).1

theorem commentLead_none_congr {hash : Bool} {c : Char} {cs cs' : List Char}
    (head : cs'.head? = cs.head?) (h : commentLead hash (c :: cs) = .none) :
    commentLead hash (c :: cs') = .none := by
  have next {k : Char} {tail : List Char} (h : cs' = k :: tail) : ∃ tail', cs = k :: tail' :=
    List.head?_eq_some_iff.1 (head.symm.trans (by rw [h]; rfl))
  by_cases mark : c = '#'
  · subst mark
    simp only [commentLead] at h ⊢
    split at h
    · cases h
    · rename_i single
      rw [head, if_neg single]
  · refine commentLead.eq_4 hash _ ?_ ?_ ?_
    · intro tail opened
      obtain ⟨rfl, rest⟩ := List.cons.inj opened
      obtain ⟨tail', rfl⟩ := next rest
      cases h
    · intro tail opened
      obtain ⟨rfl, rest⟩ := List.cons.inj opened
      obtain ⟨tail', rfl⟩ := next rest
      simp only [commentLead] at h
      split at h
      · cases h
      · split at h <;> cases h
    · intro tail opened
      exact mark (List.cons.inj opened).1

/-- A comment that declares a placeholder and ends in front of `t` is found again. -/
theorem commentLead_placeholder_append {hash : Bool} {c : Char} {cs content : List Char} {more : Nat}
    (h : commentLead hash (c :: (cs ++ t)) = .placeholder content more) (fits : more ≤ cs.length) :
    commentLead hash (c :: (cs ++ t')) = .placeholder content more := by
  generalize ht : c :: (cs ++ t) = text at h
  fun_cases commentLead hash text
  case case3 ds content' n body placeholder =>
    simp only [commentLead, body, if_pos placeholder, CommentLead.placeholder.injEq] at h
    obtain ⟨rfl, rfl⟩ := h
    cases cs with
    | nil => simp at fits
    | cons d cs =>
      cases ht
      have closed := commentBody_cut body (by simpa using fits)
      simp only [List.cons_append, commentLead, (commentBody_append t' closed).1, if_pos placeholder]
  case case6 ds single =>
    rw [commentLead, if_neg single] at h
    cases h
  all_goals simp_all [commentLead]

/-- A token that ends in front of `t` is the same in front of `t'`, if that is so of a number. -/
theorem scan_sameStart (same : SameStart lx t t') {n : Nat} {c : Char} {cs : List Char}
    (gap : ∀ more, commentLead lx.dialect.hashComments (c :: (cs ++ t)) ≠ .comment more)
    (number : (c.isDigit || (c = '.' && startsDigit (cs ++ t))) = true →
      Repeats cs.length (scanNumber (c :: (cs ++ t))) (scanNumber (c :: (cs ++ t')))) :
    Repeats cs.length (scan lx n c (cs ++ t)) (scan lx n c (cs ++ t')) := by
  have head := head?_replace same.head cs
  have stop := same.delimiter (c :: cs)
  unfold scan
  cases lead : commentLead lx.dialect.hashComments (c :: (cs ++ t)) with
  | unterminated => exact fun sound => absurd rfl (sound _)
  | comment more => exact absurd lead (gap more)
  | placeholder content more =>
    intro _ fits
    rw [commentLead_placeholder_append lead fits]
  | none =>
    rw [commentLead_none_congr head lead]
    simp only [List.cons_append] at stop
    simp only [stop, head, startsDigit_congr head]
    refine Repeats.ite (fun _ _ _ => rfl) fun _ => ?_
    refine Repeats.ite (fun mark => ?_) fun _ => ?_
    · intro sound fits
      cases cs with
      | nil => exact absurd fits (by simp)
      | cons d cs =>
        have again := keeps_placeholder same.head cs sound (Nat.succ_le_succ_iff.1 fits)
        simp only [List.cons_append, List.tail_cons, again]
    refine Repeats.ite (fun _ => keeps_scanString (.inl same.head) _ cs) fun _ => ?_
    refine Repeats.ite (fun _ => ?_) fun _ => ?_
    · exact Repeats.ite (fun _ => keeps_scanString (.inl same.head) _ cs)
        fun _ => keeps_scanDelimited (.inl same.head) cs
    refine Repeats.ite (fun _ => keeps_scanDelimited (.inl same.head) cs) fun _ => ?_
    refine Repeats.ite (fun _ => keeps_scanBlob t t' cs) fun _ => ?_
    refine Repeats.ite number fun _ => ?_
    by_cases dollar : (decide (c = '$') && lx.dialect.dollarQuotedStrings) = true
    · simp only [if_pos dollar]
      cases found : scanDollar? (cs ++ t) with
      | some answer =>
        intro sound fits
        rw [scanDollar?_replace t' found sound fits]
      | none =>
        intro sound fits
        obtain rfl : c = '$' := by simpa using (Bool.and_eq_true_iff.1 dollar).1
        have host : scanPlain lx n '$' (cs ++ t) = scanHost n '$' (cs ++ t) := rfl
        rw [scanDollar?_replace_none same.head found (host ▸ fits)]
        exact keeps_scanPlain same n '$' cs sound fits
    · simp only [if_neg dollar]
      exact keeps_scanPlain same n c cs

/-- A token that ends in front of `t` is the same in front of `t'`. -/
theorem scan_keeps (same : Alike lx t t') {n : Nat} {c : Char} {cs : List Char}
    (gap : ∀ more, commentLead lx.dialect.hashComments (c :: (cs ++ t)) ≠ .comment more) :
    Repeats cs.length (scan lx n c (cs ++ t)) (scan lx n c (cs ++ t')) :=
  scan_sameStart same.toSameStart gap fun _ => keeps_scanNumber same c cs

/-- A token that ends in front of `t` is no comment in front of `t'`. -/
theorem commentLead_keeps (head : t'.head? = t.head?) {n : Nat} {c : Char} {cs : List Char}
    (gap : ∀ more, commentLead lx.dialect.hashComments (c :: (cs ++ t)) ≠ .comment more)
    (sound : ∀ e, (scan lx n c (cs ++ t)).1 ≠ .error e)
    (fits : (scan lx n c (cs ++ t)).2 ≤ cs.length) (more : Nat) :
    commentLead lx.dialect.hashComments (c :: (cs ++ t')) ≠ .comment more := by
  intro lead'
  cases lead : commentLead lx.dialect.hashComments (c :: (cs ++ t)) with
  | unterminated =>
    simp only [scan, lead] at sound
    exact sound _ rfl
  | comment more => exact gap more lead
  | placeholder content more =>
    simp only [scan, lead] at fits
    cases lead'.symm.trans (commentLead_placeholder_append lead fits)
  | none => cases lead'.symm.trans (commentLead_none_congr (head?_replace head cs) lead)

/-! ## The terminator -/

/-- What the token in front of a terminator can know of the text behind it. -/
theorem Firm.alike (firm : Firm lx.delimiter) {x x' : List Char} (h : OrDash x x') :
    Alike lx (terminator lx.delimiter ++ x) (terminator lx.delimiter ++ x') where
  head := by
    obtain ⟨c, mark, spelled⟩ := List.exists_cons_of_ne_nil (terminator_ne_nil lx.delimiter)
    rw [spelled]
    rfl
  second := by
    by_cases custom : lx.delimiter = []
    · rw [terminator, if_pos custom]
      rcases h with same | dash
      · exact .inl same
      · exact .inr ⟨dash, by simp⟩
    · rw [terminator, if_neg custom]
      unfold Firm at firm
      generalize lx.delimiter = mark at firm custom ⊢
      rcases mark with _ | ⟨c, _ | ⟨c', mark⟩⟩
      · exact absurd rfl custom
      · rcases h with same | dash
        · exact .inl same
        · refine .inr ⟨dash, fun d hd => ?_⟩
          cases hd
          constructor <;> rintro rfl <;> simp at firm
      · exact .inl rfl
  delimiter front := by
    by_cases custom : lx.delimiter = []
    · simp [Lexicon.atDelimiter, custom]
    · have fits : lx.delimiter.length ≤ (front ++ lx.delimiter).length := by simp
      rw [terminator, if_neg custom, ← List.append_assoc, ← List.append_assoc, Lexicon.atDelimiter,
        Lexicon.atDelimiter, opens_append fits, opens_append fits]

/-- What ends a statement is the terminator. -/
theorem scan_eq_semicolon {n : Nat} {c : Char} {cs : List Char}
    (h : (scan lx n c cs).1 = .punct .semicolon) :
    (∃ rest, c :: cs = terminator lx.delimiter ++ rest) ∧
      scan lx n c cs = (.punct .semicolon, (terminator lx.delimiter).length - 1) := by
  rcases scan_cases lx n c cs with content | sign | ⟨custom, found⟩
  · rw [h] at content
    cases content
  · have plain : c = ';' ∧ lx.delimiter = [] ∧ scanPunct lx c cs = (.punct .semicolon, 0) := by
      rw [sign] at h
      revert h
      unfold scanPunct
      split <;> (try split) <;> simp_all
    obtain ⟨rfl, delimiter, answer⟩ := plain
    rw [terminator, if_pos delimiter, sign, answer]
    exact ⟨⟨cs, rfl⟩, rfl⟩
  · have delimiter : lx.delimiter ≠ [] ∧ opens lx.delimiter (c :: cs) := by
      simpa [Lexicon.atDelimiter] using custom
    rw [terminator, if_neg delimiter.1]
    exact ⟨opens_iff.1 delimiter.2, found⟩

/-- The terminator begins no comment. -/
theorem commentLead_of_semicolon {n : Nat} {c : Char} {cs : List Char}
    (h : (scan lx n c cs).1 = .punct .semicolon)
    (gap : ∀ more, commentLead lx.dialect.hashComments (c :: cs) ≠ .comment more) :
    commentLead lx.dialect.hashComments (c :: cs) = .none := by
  cases lead : commentLead lx.dialect.hashComments (c :: cs) with
  | unterminated =>
    simp only [scan, lead] at h
    cases h
  | comment more => exact absurd lead (gap more)
  | placeholder content more =>
    simp only [scan, lead] at h
    cases made : Placeholder.ofComment content true <;> rw [made] at h <;> cases h
  | none => rfl

/-- The terminator is found again in front of a text that begins alike, or with a dash. -/
theorem scan_terminator (firm : Firm lx.delimiter) {n : Nat} {c : Char} {mark x x' : List Char}
    (spelled : terminator lx.delimiter = c :: mark)
    (lead : commentLead lx.dialect.hashComments (c :: (mark ++ x)) = .none) (h : OrDash x x') :
    commentLead lx.dialect.hashComments (c :: (mark ++ x')) = .none ∧
      scan lx n c (mark ++ x') = (.punct .semicolon, mark.length) := by
  by_cases custom : lx.delimiter = []
  · rw [terminator, if_pos custom] at spelled
    cases spelled
    exact ⟨by simp [commentLead], scan_of_semicolon custom n _⟩
  · rw [terminator, if_neg custom] at spelled
    have lead' : commentLead lx.dialect.hashComments (c :: (mark ++ x')) = .none := by
      cases mark with
      | cons d mark =>
        refine commentLead_none_congr ?_ lead
        rfl
      | nil =>
        rcases h with same | dash
        · exact commentLead_none_congr same lead
        · obtain ⟨y, rfl⟩ := List.head?_eq_some_iff.1 dash
          have other : c ≠ '-' ∧ c ≠ '#' := by
            rw [spelled] at firm
            constructor <;> rintro rfl <;> simp [Firm] at firm
          refine commentLead.eq_4 _ _ ?_ ?_ ?_
          · intro tail opened
            exact other.1 (List.cons.inj opened).1
          · intro tail opened
            cases opened
          · intro tail opened
            exact other.2 (List.cons.inj opened).1
    have found : lx.atDelimiter (c :: (mark ++ x')) = true := by
      have opened : opens lx.delimiter (c :: (mark ++ x')) :=
        opens_iff.2 ⟨x', by rw [spelled]; rfl⟩
      simp [Lexicon.atDelimiter, custom, opened]
    refine ⟨lead', ?_⟩
    simp only [scan, lead', if_pos found, spelled, List.length_cons, Nat.add_sub_cancel]

end BoundSql.Token
