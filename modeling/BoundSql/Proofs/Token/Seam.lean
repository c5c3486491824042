import BoundSql.Proofs.Param.Key
import BoundSql.Proofs.Token.Terminated
import BoundSql.Proofs.Token.Trimmed
import Mathlib.Data.List.TakeWhile

/-!
# Tokens in front of a value

A value that is written in place of a placeholder begins with a digit, a minus sign or a quote. The
token right in front of it is read as before unless the two make one token, or a comment: `runsOn`
says when they do, and `scan_beside` that otherwise they do not.
-/

namespace BoundSql

open Text Token

namespace Token

/-- The number `lexeme` goes on in the text right behind it. -/
def numberGoesOn (lexeme behind : List Char) : Bool :=
  startsDigit behind ||
    lexeme.all (fun c => c != 'e' && c != 'E') && (!(exponentOf behind).isEmpty ||
      lexeme.all (· != '.') && !(fractionOf behind).isEmpty)

/-- The token makes one token, or a comment, with the beginning of the text right behind it, which
is a number, a string or a minus sign. -/
def runsOn (kind : TokenKind) (lexeme behind : List Char) : Bool :=
  match kind with
  | .integer _ | .float _ => numberGoesOn lexeme behind
  | .identifier _ | .keyword _ =>
    startsDigit behind && lexeme.head? != some '"' && lexeme.head? != some '\x60' ||
      behind.head? == some '\'' && (lexeme == ['x'] || lexeme == ['X'])
  | .string _ => behind.head? == some '\'' && lexeme.head? == some '\''
  | .symbol c => startsDigit behind && (c == '$' || c == '@')
  | .punct .dot => startsDigit behind
  | .punct .minus => behind.head? == some '-'
  | _ => false

theorem runsOn_string (t : String) (lexeme behind : List Char) :
    runsOn (.string t) lexeme behind =
      (behind.head? == some '\'' && lexeme.head? == some '\'') := rfl

theorem runsOn_identifier (s : String) (lexeme behind : List Char) :
    runsOn (.identifier s) lexeme behind =
      (startsDigit behind && lexeme.head? != some '"' && lexeme.head? != some '\x60' ||
        behind.head? == some '\'' && (lexeme == ['x'] || lexeme == ['X'])) := rfl

theorem runsOn_keyword (k : Keyword) (s : String) (lexeme behind : List Char) :
    runsOn (.keyword k) lexeme behind = runsOn (.identifier s) lexeme behind := rfl

theorem runsOn_symbol (c : Char) (lexeme behind : List Char) :
    runsOn (.symbol c) lexeme behind = (startsDigit behind && (c == '$' || c == '@')) := rfl

/-- What a value that is written in place begins with. -/
def opensValue (c : Char) : Bool := c.isDigit || c == '-' || c == '\''

variable {lx : Lexicon} {n : Nat} {c x : Char} {cs t t' r : List Char}

/-! ## Numbers -/

theorem mem_fractionOf (h : c ∈ fractionOf cs) : c = '.' ∨ c.isDigit := by
  fun_cases fractionOf cs
  case case1 d ds digit =>
    rw [fractionOf, if_pos digit] at h
    rcases List.mem_cons.1 h with point | inside
    · exact .inl point
    · exact .inr (List.mem_takeWhile_imp inside)
  all_goals simp_all [fractionOf]

theorem fractionOf_of_startsDigit (h : startsDigit cs = false) (c : Char) :
    fractionOf (c :: cs) = [] := by
  cases cs with
  | nil => exact fractionOf_eq_nil (length_fractionOf_le [c])
  | cons d ds =>
    by_cases point : c = '.'
    · subst point
      exact if_neg (by simp [show d.isDigit = false from h])
    · simp [fractionOf, point]

/-- What begins like a number is one with at least one character. -/
theorem length_number_pos (first : c.isDigit ∨ c = '.' ∧ startsDigit cs) :
    0 < ((c :: cs).takeWhile Char.isDigit).length +
      (fractionOf ((c :: cs).drop ((c :: cs).takeWhile Char.isDigit).length)).length := by
  rcases first with hc | ⟨rfl, hd⟩
  · rw [List.takeWhile_cons_of_pos hc, List.length_cons]
    omega
  · cases cs with
    | nil => cases hd
    | cons d ds =>
      have digit : d.isDigit = true := hd
      have none : ('.' :: d :: ds).takeWhile Char.isDigit = [] := rfl
      rw [none, List.length_nil, List.drop_zero, fractionOf, if_pos digit, List.length_cons]
      omega

/-- A number that ends in front of `t` ends in front of a text that does not go on with it. -/
theorem scanNumber_beside (first : c.isDigit ∨ c = '.' ∧ startsDigit (cs ++ t))
    (exact : (scanNumber (c :: (cs ++ t))).2 = cs.length)
    (stops : numberGoesOn (c :: cs) t' = false) :
    scanNumber (c :: (cs ++ t')) = scanNumber (c :: (cs ++ t)) := by
  obtain ⟨digit, marks⟩ : startsDigit t' = false ∧
      ((c :: cs).all (fun c => c != 'e' && c != 'E') = true → exponentOf t' = [] ∧
        ((c :: cs).all (· != '.') = true → fractionOf t' = [])) := by
    simpa [numberGoesOn] using stops
  have turns : Turns Char.isDigit t' t := by
    refine .inr fun d hd => ?_
    obtain ⟨ds, rfl⟩ := List.head?_eq_some_iff.1 hd
    exact digit
  have plain {d : Char} (hd : d.isDigit) : (d ≠ 'e' ∧ d ≠ 'E') ∧ d ≠ '.' :=
    ⟨⟨ne_of_class hd rfl, ne_of_class hd rfl⟩, ne_of_class hd rfl⟩
  have filled := length_number_pos first
  have size : (c :: cs).length = cs.length + 1 := rfl
  unfold scanNumber at exact ⊢
  rw [← List.cons_append] at exact filled ⊢
  rw [← List.cons_append]
  generalize c :: cs = text at exact marks filled size ⊢
  simp only [List.length_append] at exact ⊢
  have run := List.takeWhile_prefix Char.isDigit (l := text ++ t)
  have inside : ∀ d ∈ (text ++ t).takeWhile Char.isDigit, d.isDigit = true :=
    fun d hd => List.mem_takeWhile_imp hd
  rw [takeWhile_replace turns (show ((text ++ t).takeWhile Char.isDigit).length ≤ text.length by omega)]
  generalize (text ++ t).takeWhile Char.isDigit = digits at exact filled run inside ⊢
  obtain ⟨rest, rfl⟩ : digits <+: text :=
    List.prefix_of_prefix_length_le run (List.prefix_append text t) (by omega)
  simp only [List.append_assoc, List.drop_left, List.length_append] at exact filled size ⊢
  -- In front of the fraction stand digits only.
  have noFraction (short : rest.length ≤ 1) : fractionOf (rest ++ t') = [] := by
    match rest with
    | [] =>
      rw [List.append_nil] at marks
      refine (marks ?_).2 ?_
      · exact List.all_eq_true.2 fun d hd => by simpa using (plain (inside d hd)).1
      · exact List.all_eq_true.2 fun d hd => by simpa using (plain (inside d hd)).2
    | [d] => exact fractionOf_of_startsDigit digit d
  rw [fractionOf_replace turns (by omega) noFraction]
  have fraction := prefix_fractionOf (rest ++ t)
  have point : ∀ d ∈ fractionOf (rest ++ t), d = '.' ∨ d.isDigit = true := fun d hd => mem_fractionOf hd
  generalize fractionOf (rest ++ t) = decimals at exact filled fraction point ⊢
  obtain ⟨tail, rfl⟩ : decimals <+: rest :=
    List.prefix_of_prefix_length_le fraction (List.prefix_append rest t) (by omega)
  simp only [List.append_assoc, List.drop_left, List.length_append] at exact filled size ⊢
  -- In front of the exponent stand digits and the point.
  have whole : (exponentOf (tail ++ t)).length = tail.length := by omega
  have noExponent (short : tail.length ≤ 1) : exponentOf (tail ++ t') = [] := by
    match tail with
    | [] =>
      rw [List.append_nil] at marks
      refine (marks (List.all_eq_true.2 fun d hd => ?_)).1
      rcases List.mem_append.1 hd with whole | fraction
      · simpa using (plain (inside d whole)).1
      · rcases point d fraction with rfl | digit
        · rfl
        · simpa using (plain digit).1
    | [d] =>
      rw [exponentOf_eq_nil (Nat.le_of_eq whole)] at whole
      cases whole
  rw [exponentOf_replace turns (by omega) noExponent]

/-! ## Tokens that do not run on -/

/-- The answer `b` is `a` again if `a` is a token that ends after `n` characters, stands for no
parameter and does not run on in the text `behind`. -/
def Joins (lexeme behind : List Char) (n : Nat) (a b : TokenKind × Nat) : Prop :=
  (∀ e, a.1 ≠ .error e) → a.1.key? = none → runsOn a.1 lexeme behind = false → a.2 = n → b = a

section Joins

variable {lexeme behind : List Char} {a b a' b' : TokenKind × Nat}

theorem Joins.ite {p : Prop} [Decidable p] (h : p → Joins lexeme behind n a a')
    (h' : ¬ p → Joins lexeme behind n b b') :
    Joins lexeme behind n (if p then a else b) (if p then a' else b') := by
  by_cases hp : p
  · simpa only [if_pos hp] using h hp
  · simpa only [if_neg hp] using h' hp

/-- Conditions about the text behind the token need not agree where that cannot be. -/
theorem Joins.ite_congr {p p' : Prop} [Decidable p] [Decidable p']
    (both : p → p' → Joins lexeme behind n a a') (lost : p → ¬ p' → Joins lexeme behind n a b')
    (gained : ¬ p → p' → Joins lexeme behind n b a')
    (neither : ¬ p → ¬ p' → Joins lexeme behind n b b') :
    Joins lexeme behind n (if p then a else b) (if p' then a' else b') := by
  by_cases hp : p <;> by_cases hp' : p'
  · simpa only [if_pos hp, if_pos hp'] using both hp hp'
  · simpa only [if_pos hp, if_neg hp'] using lost hp hp'
  · simpa only [if_neg hp, if_pos hp'] using gained hp hp'
  · simpa only [if_neg hp, if_neg hp'] using neither hp hp'

theorem Repeats.joins (h : Repeats n a b) : Joins lexeme behind n a b :=
  fun sound _ _ exact => h sound (Nat.le_of_eq exact)

/-- What stands for a parameter is out of the question. -/
theorem joins_of_toKind {p : Except LexicalError Placeholder} {m : Nat} :
    Joins lexeme behind n (Placeholder.toKind p, m) b := by
  intro sound key
  cases p with
  | error e => exact absurd rfl (sound e)
  | ok p => cases key

theorem joins_of_placeholder {m : Nat} :
    Joins lexeme behind n ((Placeholder.scan cs).1, m) b := by
  have made : ∃ p, (Placeholder.scan cs).1 = Placeholder.toKind p := by
    unfold Placeholder.scan
    dsimp only
    split
    · split
      · exact ⟨_, rfl⟩
      · exact ⟨.error .unterminatedComment, rfl⟩
    · exact ⟨_, rfl⟩
  obtain ⟨p, made⟩ := made
  rw [made]
  exact joins_of_toKind

/-- A longer token is out of the question. -/
theorem joins_of_lt (h : (∀ e, a.1 ≠ .error e) → n < a.2) : Joins lexeme behind n a b :=
  fun sound _ _ exact => absurd exact (Nat.ne_of_gt (h sound))

end Joins

theorem turns_of_not {p : Char → Bool} (h : p x = false) : Turns p (x :: r) t :=
  .inr fun d hd => by
    cases hd
    exact h

theorem opensValue_cases (hx : opensValue x) : x.isDigit ∨ x = '-' ∨ x = '\'' := by
  simpa [opensValue, or_assoc] using hx

theorem ne_of_opensValue (hx : opensValue x) {k : Char} (hk : opensValue k = false) : x ≠ k :=
  ne_of_class hx hk

variable {lexeme : List Char}

theorem joins_scanString (d : Dialect) :
    Joins ('\'' :: lexeme) (x :: r) cs.length (scanString d '\'' (cs ++ t))
      (scanString d '\'' (cs ++ x :: r)) := by
  intro sound _ apart exact
  refine keeps_scanString (turns_of_not ?_) d cs sound (Nat.le_of_eq exact)
  unfold scanString at sound apart
  cases found : quotedBody '\'' d.backslashEscapes (cs ++ t) with
  | none =>
    rw [found] at sound
    exact absurd rfl (sound _)
  | some body =>
    rw [found] at apart
    simpa [runsOn_string] using apart

theorem number_cases (text : List Char) (whole : Bool) : (∃ n, number text whole = .integer n) ∨
    (∃ x, number text whole = .float x) ∨ ∃ e, number text whole = .error e := by
  unfold number
  split
  · exact .inl ⟨_, rfl⟩
  · split
    · exact .inr (.inl ⟨_, rfl⟩)
    · exact .inr (.inr ⟨_, rfl⟩)

theorem joins_scanNumber (first : c.isDigit ∨ c = '.' ∧ startsDigit (cs ++ t)) :
    Joins (c :: cs) t' cs.length (scanNumber (c :: (cs ++ t))) (scanNumber (c :: (cs ++ t'))) := by
  intro sound _ apart exact
  refine scanNumber_beside first exact ?_
  rcases number_cases _ _ with ⟨n, kind⟩ | ⟨x, kind⟩ | ⟨e, kind⟩
  · rwa [show (scanNumber (c :: (cs ++ t))).1 = .integer n from kind] at apart
  · rwa [show (scanNumber (c :: (cs ++ t))).1 = .float x from kind] at apart
  · exact absurd kind (sound e)

theorem isNameStart_of_opensValue (hx : opensValue x) : isNameStart x = false := by
  rcases opensValue_cases hx with digit | rfl | rfl
  · by_contra start
    have noDigit := isDigit_of_isNameStart (by simpa using start)
    rw [digit] at noDigit
    cases noDigit
  · decide
  · decide

/-- A letter or digit goes on with a name, no other beginning of a value does. -/
theorem isNameChar_of_opensValue (hx : opensValue x) (hd : x.isDigit = false) :
    isNameChar x = false := by
  rcases opensValue_cases hx with digit | rfl | rfl
  · rw [hd] at digit
    cases digit
  · decide
  · decide

theorem joins_scanName (hlx : lx.delimiter = []) (hx : opensValue x) (hc : isNameStart c) :
    Joins (c :: lexeme) (x :: r) cs.length (scanName lx c (cs ++ t))
      (scanName lx c (cs ++ x :: r)) := by
  intro sound _ apart exact
  have stop (ds : List Char) : lx.atDelimiter ds = false := by simp [Lexicon.atDelimiter, hlx]
  have bare : c ≠ '"' ∧ c ≠ '\x60' := ⟨ne_of_class hc rfl, ne_of_class hc rfl⟩
  have digit : x.isDigit = false := by
    unfold scanName word at apart
    dsimp only at apart
    split at apart
    all_goals
      by_contra digit
      simp [runsOn_keyword _ "", runsOn_identifier, startsDigit, bare, digit] at apart
  refine keeps_scanName (turns_of_not (isNameChar_of_opensValue hx digit)) ?_ c cs sound
    (Nat.le_of_eq exact)
  intro front
  rw [stop, stop]

theorem joins_scanSystem (hx : opensValue x) :
    Joins ('@' :: lexeme) (x :: r) cs.length (scanSystem (cs ++ t)) (scanSystem (cs ++ x :: r)) := by
  intro sound _ apart exact
  have digit : x.isDigit = false := by
    by_contra digit
    simp [scanSystem, runsOn_identifier, startsDigit, digit] at apart
  have word : isWordChar x = false :=
    (Bool.or_eq_false_iff.1 (isNameChar_of_opensValue hx digit)).1
  have point : (x == '.') = false := by simpa using ne_of_opensValue hx (k := '.') rfl
  exact keeps_scanSystem (turns_of_not (by simp [word, point])) cs sound (Nat.le_of_eq exact)

theorem scanHost_cases (n : Nat) (c : Char) (cs : List Char) :
    (∃ name, (scanHost n c cs).1 = .hostParam name) ∨
      c ≠ '?' ∧ scanHost n c cs = (.symbol c, 0) := by
  unfold scanHost
  extract_lets name
  split
  · exact .inl ⟨_, rfl⟩
  · split
    · exact .inl ⟨_, rfl⟩
    · exact .inr ⟨‹_›, rfl⟩

/-- A sign that is no parameter is a token by itself. -/
theorem joins_scanHost (hc : c = '?' ∨ c = '$' ∨ c = '@') (hx : opensValue x) :
    Joins lexeme (x :: r) cs.length (scanHost n c (cs ++ t)) (scanHost n c (cs ++ x :: r)) := by
  intro _ key apart exact
  rcases scanHost_cases n c (cs ++ t) with ⟨name, host⟩ | ⟨mark, symbol⟩
  · rw [host] at key
    cases key
  · rw [symbol] at apart exact ⊢
    obtain rfl : cs = [] := List.length_eq_zero_iff.1 exact.symm
    have sign : (c == '$' || c == '@') = true := by simpa using hc.resolve_left mark
    have digit : x.isDigit = false := by simpa [runsOn_symbol, startsDigit, sign] using apart
    have noWord : isWordChar x = false :=
      (Bool.or_eq_false_iff.1 (isNameChar_of_opensValue hx digit)).1
    simp [scanHost, digit, mark, noWord]

/-- No operator goes on with a value. -/
theorem scanPunct_le (hx : opensValue x) : (scanPunct lx c (cs ++ x :: r)).2 ≤ cs.length := by
  have other {k : Char} (hk : opensValue k = false) : x ≠ k := ne_of_opensValue hx hk
  generalize htext : cs ++ x :: r = text
  fun_cases scanPunct lx c text
  all_goals first
    | exact Nat.zero_le _
    | (rcases cs with _ | ⟨_, _ | ⟨_, _⟩⟩
       · cases htext; exact absurd rfl (other rfl)
       · first | exact Nat.le_refl 1 | (cases htext; exact absurd rfl (other rfl))
       · simp)

theorem joins_scanPunct (hx : opensValue x) :
    Joins lexeme (x :: r) cs.length (scanPunct lx c (cs ++ t)) (scanPunct lx c (cs ++ x :: r)) := by
  intro _ _ _ exact
  rw [scanPunct_cut (Nat.le_of_eq exact), scanPunct_cut (scanPunct_le hx)]

/-- A colon in front of a letter begins a parameter. -/
theorem joins_of_startsName {a : TokenKind × Nat} (h : startsName cs) :
    Joins lexeme t' n (scanHost n ':' cs) a := by
  intro _ key
  cases cs with
  | nil => cases h
  | cons d ds =>
    have start : isNameStart d := h
    have noDigit : d.isDigit = false := isDigit_of_isNameStart start
    have wordChar : isWordChar d := by
      rcases Bool.or_eq_true_iff.1 start with letter | underscore
      · simp [isWordChar, isAlphanumeric, letter]
      · simp [isWordChar, underscore]
    simp [scanHost, noDigit, wordChar, TokenKind.key?] at key

/-- What a token knows of the text behind it, it knows only if it has a single character. -/
theorem head?_seam (cs t : List Char) (x : Char) (r : List Char) :
    (cs ++ x :: r).head? = (cs ++ t).head? ∨ cs = [] ∧ (cs ++ x :: r).head? = some x := by
  cases cs with
  | nil => exact .inr ⟨rfl, rfl⟩
  | cons d ds => exact .inl rfl

theorem startsName_seam (hx : opensValue x) (h : startsName (cs ++ x :: r)) : startsName (cs ++ t) := by
  cases cs with
  | nil =>
    have none : startsName ([] ++ x :: r) = false := isNameStart_of_opensValue hx
    rw [h] at none
    cases none
  | cons d ds => exact h

theorem joins_scanPlain (hlx : lx.delimiter = []) (hx : opensValue x) :
    Joins (c :: cs) (x :: r) cs.length (scanPlain lx n c (cs ++ t))
      (scanPlain lx n c (cs ++ x :: r)) := by
  unfold scanPlain
  refine Joins.ite (fun hc => joins_scanName hlx hx hc) fun _ => ?_
  refine Joins.ite_congr (fun system _ => ?_) (fun system lost => ?_) (fun other gained => ?_)
    fun _ _ => ?_
  · obtain ⟨rfl, -⟩ : c = '@' ∧ _ := by simpa using system
    exact joins_scanSystem hx
  · rcases head?_seam cs t x r with same | ⟨rfl, -⟩
    · exact absurd (same ▸ system) lost
    · exact joins_of_lt fun _ => Nat.succ_pos _
  · rcases head?_seam cs t x r with same | ⟨-, first⟩
    · exact absurd (same ▸ gained) other
    · simp [first, ne_of_opensValue hx (k := '@') rfl] at gained
  have signs (name : Bool) : (decide (c = '?') || decide (c = '$') || decide (c = '@') ||
      decide (c = ':') && name) = true ↔
        (c = '?' ∨ c = '$' ∨ c = '@') ∨ c = ':' ∧ name = true := by
    simp [or_assoc]
  simp only [signs]
  refine Joins.ite_congr (fun host _ => ?_) (fun host lost => ?_) (fun other gained => ?_) fun _ _ =>
    joins_scanPunct hx
  · rcases host with sign | ⟨rfl, name⟩
    · exact joins_scanHost sign hx
    · exact joins_of_startsName name
  · rcases host with sign | ⟨rfl, name⟩
    · exact absurd (Or.inl sign) lost
    · exact joins_of_startsName name
  · exact absurd (gained.imp_right fun ⟨colon, name⟩ => ⟨colon, startsName_seam hx name⟩) other

/-- A token that does not run on is no comment with the value behind it. -/
theorem commentLead_seam (hx : opensValue x) (hlx : lx.delimiter = [])
    (lead : commentLead lx.dialect.hashComments (c :: (cs ++ t)) = .none)
    (apart : runsOn (scan lx n c (cs ++ t)).1 (c :: cs) (x :: r) = false)
    (exact : (scan lx n c (cs ++ t)).2 = cs.length) :
    commentLead lx.dialect.hashComments (c :: (cs ++ x :: r)) = .none := by
  cases cs with
  | cons d ds =>
    refine commentLead_none_congr ?_ lead
    rfl
  | nil =>
    rw [List.nil_append] at lead apart exact ⊢
    have stop : lx.atDelimiter (c :: t) = false := by simp [Lexicon.atDelimiter, hlx]
    by_cases sharp : c = '#'
    · subst sharp
      have single : ¬ t.head? = some '#' := by
        intro double
        simp [scan, lead, stop, double] at exact
      have hash : lx.dialect.hashComments = false := by
        simpa [commentLead, single] using lead
      simp [commentLead, hash]
    · refine commentLead.eq_4 _ _ ?_ ?_ ?_
      · intro tail opened
        cases opened
        have minus : (scan lx n '-' t).1 = .punct .minus := by
          unfold scan
          rw [lead]
          simp only [stop]
          rfl
        rw [minus] at apart
        cases apart
      · intro tail opened
        cases opened
        cases hx
      · intro tail opened
        exact sharp (List.cons.inj opened).1

theorem scanBlob_pos (sound : ∀ e, (scanBlob cs).1 ≠ .error e) : 0 < (scanBlob cs).2 := by
  unfold scanBlob at sound ⊢
  dsimp only at sound ⊢
  split at sound
  · exact absurd rfl (sound _)
  · split <;> exact Nat.succ_pos _
  · exact Nat.succ_pos _

/-- A point with a digit behind it is no token by itself. -/
theorem scanNumber_point (h : startsDigit cs) : 0 < (scanNumber ('.' :: cs)).2 := by
  cases cs with
  | nil => cases h
  | cons d ds =>
    have digit : d.isDigit = true := h
    have none : ('.' :: d :: ds).takeWhile Char.isDigit = [] := rfl
    simp [scanNumber, none, fractionOf, digit]

/-- The mark of a blob goes on in front of a quote. -/
theorem joins_of_blobMark {b : TokenKind × Nat} (hc : c = 'X' ∨ c = 'x') :
    Joins [c] ('\'' :: r) n (scanName lx c cs) b := by
  intro _ _ apart
  unfold scanName word at apart
  rcases hc with rfl | rfl
  all_goals
    dsimp only at apart
    split at apart <;> cases apart

/-- No tag of a dollar-quoted string begins with a minus sign or a quote. -/
theorem scanDollar?_of_opensValue (hx : opensValue x) (hd : x.isDigit = false) :
    scanDollar? (x :: r) = none := by
  have noWord : isWordChar x = false :=
    (Bool.or_eq_false_iff.1 (isNameChar_of_opensValue hx hd)).1
  have dollar : x ≠ '$' := ne_of_opensValue hx rfl
  simp [scanDollar?, noWord, dollar]

/-- Where a dollar sign can open a string, it does so in front of both or of neither. -/
theorem joins_scanDollar {a b : TokenKind × Nat} (hlx : lx.delimiter = []) (hx : opensValue x)
    (ha : a = (scanDollar? (cs ++ t)).getD (scanPlain lx n '$' (cs ++ t)))
    (hb : b = (scanDollar? (cs ++ x :: r)).getD (scanPlain lx n '$' (cs ++ x :: r))) :
    Joins ('$' :: cs) (x :: r) cs.length a b := by
  subst ha hb
  intro sound key apart exact
  cases found : scanDollar? (cs ++ t) with
  | some answer =>
    rw [found] at sound exact
    rw [scanDollar?_replace _ found sound (Nat.le_of_eq exact)]
    rfl
  | none =>
    rw [found] at sound key apart exact
    have none : scanDollar? (cs ++ x :: r) = none := by
      rcases scanHost_cases n '$' (cs ++ t) with ⟨name, host⟩ | ⟨-, symbol⟩
      · have host : (scanPlain lx n '$' (cs ++ t)).1 = .hostParam name := host
        rw [Option.getD_none, host] at key
        cases key
      · have symbol : scanPlain lx n '$' (cs ++ t) = (.symbol '$', 0) := symbol
        rw [Option.getD_none, symbol] at apart exact
        obtain rfl : cs = [] := List.length_eq_zero_iff.1 exact.symm
        have digit : x.isDigit = false := by simpa [runsOn_symbol, startsDigit] using apart
        exact scanDollar?_of_opensValue hx digit
    rw [none]
    exact joins_scanPlain hlx hx sound key apart exact

theorem joins_scan (hlx : lx.delimiter = []) (hx : opensValue x)
    (lead : commentLead lx.dialect.hashComments (c :: (cs ++ t)) = .none)
    (lead' : commentLead lx.dialect.hashComments (c :: (cs ++ x :: r)) = .none) :
    Joins (c :: cs) (x :: r) cs.length (scan lx n c (cs ++ t)) (scan lx n c (cs ++ x :: r)) := by
  have stop (ds : List Char) : lx.atDelimiter ds = false := by simp [Lexicon.atDelimiter, hlx]
  have same {k : Char} (hk : opensValue k = false) (h : (cs ++ x :: r).head? == some k) :
      (cs ++ t).head? == some k := by
    rcases head?_seam cs t x r with same | ⟨-, first⟩
    · exact same ▸ h
    · simp [first, ne_of_opensValue hx hk] at h
  unfold scan
  rw [lead, lead']
  simp only [stop, Bool.false_eq_true, if_false]
  refine Joins.ite_congr (fun _ _ => joins_of_placeholder) (fun _ _ => joins_of_placeholder)
    (fun other gained => ?_) fun _ _ => ?_
  · simp only [Bool.and_eq_true] at gained other
    exact absurd (gained.imp_right (same rfl)) other
  have quote {k : Char} (hk : opensValue k = false) : Turns (· == k) (x :: r) t :=
    turns_of_not (by simpa using ne_of_opensValue hx hk)
  refine Joins.ite (fun hc => hc ▸ joins_scanString _) fun _ => ?_
  refine Joins.ite (fun hc => ?_) fun _ => ?_
  · exact Joins.ite (fun _ => (keeps_scanString (quote rfl) _ cs).joins)
      fun _ => (keeps_scanDelimited (quote rfl) cs).joins
  refine Joins.ite (fun _ => (keeps_scanDelimited (quote rfl) cs).joins) fun _ => ?_
  refine Joins.ite_congr (fun _ _ => (keeps_scanBlob _ _ cs).joins) (fun blob lost => ?_)
    (fun other gained => ?_) fun _ _ => ?_
  · rcases head?_seam cs t x r with same | ⟨rfl, -⟩
    · exact absurd (same ▸ blob) lost
    · exact joins_of_lt scanBlob_pos
  · rcases head?_seam cs t x r with same | ⟨rfl, -⟩
    · exact absurd (same ▸ gained) other
    · obtain ⟨mark, rfl⟩ : (c = 'X' ∨ c = 'x') ∧ x = '\'' := by simpa using gained
      rcases mark with rfl | rfl
      all_goals exact joins_of_blobMark (by simp)
  refine Joins.ite_congr (fun first _ => ?_) (fun first lost => ?_) (fun other gained => ?_)
    fun _ _ => ?_
  · exact joins_scanNumber (by simpa using first)
  · cases cs with
    | cons d ds => exact absurd first lost
    | nil =>
      obtain digit | ⟨rfl, digit⟩ : c.isDigit ∨ c = '.' ∧ startsDigit t := by simpa using first
      · exact absurd (by simp [digit]) lost
      · exact joins_of_lt fun _ => scanNumber_point digit
  · cases cs with
    | cons d ds => exact absurd gained other
    | nil =>
      obtain digit | ⟨rfl, digit⟩ : c.isDigit ∨ c = '.' ∧ startsDigit (x :: r) := by
        simpa using gained
      · exact absurd (by simp [digit]) other
      · intro _ _ apart
        have dot : runsOn (.punct .dot) ['.'] (x :: r) = false := apart
        cases dot.symm.trans digit
  by_cases dollar : (decide (c = '$') && lx.dialect.dollarQuotedStrings) = true
  · simp only [if_pos dollar]
    obtain rfl : c = '$' := by simpa using (Bool.and_eq_true_iff.1 dollar).1
    refine @joins_scanDollar lx n x cs t r _ _ hlx hx ?_ ?_
    · cases scanDollar? (cs ++ t) <;> rfl
    · cases scanDollar? (cs ++ x :: r) <;> rfl
  · simp only [if_neg dollar]
    exact joins_scanPlain hlx hx

/-! ## Tokens in front of another text -/

/-- What begins like a number is read as one. -/
theorem scan_of_number (hlx : lx.delimiter = []) (first : c.isDigit ∨ c = '.' ∧ startsDigit cs) :
    scan lx n c cs = scanNumber (c :: cs) := by
  rcases first with digit | ⟨rfl, digit⟩
  · exact scan_of_isDigit hlx digit
  · have stop : lx.atDelimiter ('.' :: cs) = false := by simp [Lexicon.atDelimiter, hlx]
    have lead : commentLead lx.dialect.hashComments ('.' :: cs) = .none := rfl
    simp [scan, lead, stop, digit]

/-- What begins with a question mark stands for a parameter. -/
theorem ne_of_no_key (hlx : lx.delimiter = []) (key : (scan lx n c cs).1.key? = none) : c ≠ '?' := by
  rintro rfl
  have stop : lx.atDelimiter ('?' :: cs) = false := by simp [Lexicon.atDelimiter, hlx]
  have lead : commentLead lx.dialect.hashComments ('?' :: cs) = .none := rfl
  have host : scan lx n '?' cs = scanHost n '?' cs := by
    unfold scan
    rw [lead]
    simp only [stop]
    rfl
  rcases scanHost_cases n '?' cs with ⟨name, named⟩ | ⟨other, -⟩
  · rw [host, named] at key
    cases key
  · exact other rfl

/-- A token that is no error and stands for no parameter begins with no comment. -/
theorem commentLead_of_no_key (gap : ∀ more, commentLead lx.dialect.hashComments (c :: cs) ≠ .comment more)
    (sound : ∀ e, (scan lx n c cs).1 ≠ .error e) (key : (scan lx n c cs).1.key? = none) :
    commentLead lx.dialect.hashComments (c :: cs) = .none := by
  unfold scan at sound key
  cases lead : commentLead lx.dialect.hashComments (c :: cs) with
  | none => rfl
  | comment more => exact absurd lead (gap more)
  | unterminated =>
    rw [lead] at sound
    exact absurd rfl (sound _)
  | placeholder content more =>
    rw [lead] at sound key
    dsimp only at sound key
    cases made : Placeholder.ofComment content true with
    | error e =>
      rw [made] at sound
      exact absurd rfl (sound e)
    | ok p =>
      rw [made] at key
      cases key

/-- The texts begin alike, or the second one begins like a value. -/
def BesideValue (t t' : List Char) : Prop :=
  t'.head? = t.head? ∨ ∃ x r, t' = x :: r ∧ opensValue x

/-- A token is read in front of a value as in front of another text, unless it runs on. -/
theorem scan_beside (hlx : lx.delimiter = []) {kind : TokenKind} (beside : BesideValue t t')
    (gap : ∀ more, commentLead lx.dialect.hashComments (c :: (cs ++ t)) ≠ .comment more)
    (sound : ∀ e, kind ≠ .error e) (key : kind.key? = none)
    (apart : runsOn kind (c :: cs) t' = false)
    (scanned : scan lx n c (cs ++ t) = (kind, cs.length)) :
    (∀ more, commentLead lx.dialect.hashComments (c :: (cs ++ t')) ≠ .comment more) ∧
      scan lx n c (cs ++ t') = (kind, cs.length) := by
  obtain ⟨rfl, exact⟩ := Prod.ext_iff.1 scanned
  dsimp only at exact sound key apart
  rw [← scanned]
  rcases beside with head | ⟨x, r, rfl, hx⟩
  · have same : SameStart lx t t' := ⟨head, fun front => by simp [Lexicon.atDelimiter, hlx]⟩
    refine ⟨commentLead_keeps head gap sound (Nat.le_of_eq exact),
      scan_sameStart same gap (fun number _ _ => ?_) sound (Nat.le_of_eq exact)⟩
    have first : c.isDigit ∨ c = '.' ∧ startsDigit (cs ++ t) := by simpa using number
    rw [scan_of_number hlx first] at sound key apart exact
    exact joins_scanNumber first sound key apart exact
  · have lead := commentLead_of_no_key gap sound key
    have lead' := commentLead_seam hx hlx lead apart exact
    refine ⟨fun more comment => ?_, joins_scan hlx hx lead lead' sound key apart exact⟩
    rw [lead'] at comment
    cases comment

end Token

/-- A token that is no error is read with the text of the tokens behind it. -/
theorem Lexer.scan_of_tokens {l : Lexer} {ts more : List Token} {t : Token}
    (hlx : l.lexicon.delimiter = []) (h : l.tokens = ts ++ t :: more) (kind : t.kind ≠ .eof)
    (sound : ∀ e, t.kind ≠ .error e) :
    ∃ n c cs, t.lexeme = c :: cs ∧ isBlank c = false ∧
      (∀ m, commentLead l.lexicon.dialect.hashComments (c :: (cs ++ more.flatMap source)) ≠
        .comment m) ∧
      scan l.lexicon n c (cs ++ more.flatMap source) = (t.kind, cs.length) := by
  obtain ⟨n, c, cs, text, solid, lead, scanned, lexeme⟩ := scanned_of_tokens h kind
  have fits : (scan l.lexicon n c cs).2 ≤ cs.length :=
    (scan_append hlx ends_nil lead (scanned ▸ sound)).2
  rw [lexeme, List.cons_append, List.cons.injEq] at text
  refine ⟨n, c, _, lexeme, solid, ?_, ?_⟩
  · rw [text.2]
    exact lead
  · rw [text.2, scanned, List.length_take, Nat.min_eq_left fits]

end BoundSql
