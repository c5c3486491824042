import BoundSql.Proofs.Text.CharClass
import BoundSql.Proofs.Token.Gap
import BoundSql.Proofs.Token.Word

/-!
# Words next to each other

What a scanner reads does not change when a character that belongs to no word follows. So a text
that ends with a word can be lexed by itself, whatever stands behind such a character:
`Lexicon.words_append`.
-/

namespace BoundSql.Token

open Text

/-- A character that ends the word in front of it and continues none. -/
def isStop (c : Char) : Bool :=
  isBlank c || c == '(' || c == ')' || c == ',' || c == ';'

/-- A text that is empty or begins with a stop. -/
def Ends (cs : List Char) : Prop := ∀ c, cs.head? = some c → isStop c

theorem ends_nil : Ends [] := by simp [Ends]

theorem ends_cons {c : Char} (h : isStop c) (cs : List Char) : Ends (c :: cs) := by
  simpa [Ends] using h

theorem Ends.isStop {c : Char} {cs : List Char} (h : Ends (c :: cs)) : isStop c := h c rfl

theorem isStop_of_isBlank {c : Char} (h : isBlank c) : isStop c := by
  simp [isStop, h]

/-- A stop that is no blank is one of four characters. -/
theorem isStop_iff {c : Char} :
    isStop c ↔ isBlank c ∨ c = '(' ∨ c = ')' ∨ c = ',' ∨ c = ';' := by
  simp [isStop, or_assoc]

/-- A character that comparisons consist of. -/
def isSign (c : Char) : Bool := c == '=' || c == '<' || c == '>' || c == '!'

/-- A stop or a sign. It ends every word but one that consists of signs itself. -/
def isBreak (c : Char) : Bool := isStop c || isSign c

/-- A text that is empty or begins with a break. -/
def Breaks (cs : List Char) : Prop := ∀ c, cs.head? = some c → isBreak c

theorem Breaks.isBreak {c : Char} {cs : List Char} (h : Breaks (c :: cs)) : isBreak c := h c rfl

theorem isBreak_of_isStop {c : Char} (h : isStop c) : isBreak c := by
  simp [isBreak, h]

theorem isBreak_of_isSign {c : Char} (h : isSign c) : isBreak c := by
  simp [isBreak, h]

theorem Ends.breaks {cs : List Char} (h : Ends cs) : Breaks cs :=
  fun c hc => isBreak_of_isStop (h c hc)

/-- A class of characters without the breaks. -/
def BreakFree (p : Char → Bool) : Prop := ∀ c, isBreak c → p c = false

/-- The code points of the breaks. -/
def breakCodes : List Nat := [0x28, 0x29, 0x2c, 0x3b, 0x3d, 0x3c, 0x3e, 0x21] ++ blankCodes

theorem toNat_mem_breakCodes {c : Char} (h : isBreak c) : c.toNat ∈ breakCodes := by
  simp only [isBreak, isSign, Bool.or_eq_true, beq_iff_eq, isStop_iff, or_assoc] at h
  rcases h with blank | rfl | rfl | rfl | rfl | rfl | rfl | rfl | rfl
  · exact List.mem_append_right _ (toNat_mem_blankCodes blank)
  all_goals decide

/-- It is enough to look at each of the breaks. -/
theorem breakFree_of {p : Char → Bool} (h : ∀ n ∈ breakCodes, p (Char.ofNat n) = false) :
    BreakFree p := by
  intro c hc
  have := h _ (toNat_mem_breakCodes hc)
  rwa [Char.ofNat_toNat] at this

theorem ne_of_isBreak {c d : Char} (hc : isBreak c) (hd : isBreak d = false) : c ≠ d := by
  rintro rfl
  rw [hc] at hd
  cases hd

/-- A class stays free of breaks with one more character that is none. -/
theorem BreakFree.or {p : Char → Bool} (hp : BreakFree p) {k : Char} (hk : isBreak k = false) :
    BreakFree fun c => p c || c == k := by
  intro c hc
  simp [hp c hc, ne_of_isBreak hc hk]

theorem breakFree_isAlphanumeric : BreakFree isAlphanumeric := by
  intro c hc
  rw [Bool.eq_false_iff]
  intro letter
  simp only [isBreak, isSign, Bool.or_eq_true, beq_iff_eq, isStop_iff, or_assoc] at hc
  rcases hc with blank | rfl | rfl | rfl | rfl | rfl | rfl | rfl | rfl
  · rw [isBlank_of_isAlphanumeric letter] at blank
    cases blank
  all_goals cases letter

theorem breakFree_isWordChar : BreakFree isWordChar := breakFree_isAlphanumeric.or (by decide)

theorem isBlank_of_isWordChar {c : Char} (hc : isWordChar c) : isBlank c = false := by
  rw [Bool.eq_false_iff]
  intro blank
  have := breakFree_isWordChar c (isBreak_of_isStop (isStop_of_isBlank blank))
  rw [hc] at this
  cases this

theorem breakFree_isNameChar : BreakFree isNameChar := breakFree_isWordChar.or (by decide)

theorem breakFree_isDigit : BreakFree Char.isDigit := breakFree_of (by decide)

theorem breakFree_isBodyChar : BreakFree Placeholder.isBodyChar :=
  (((((breakFree_isWordChar.or (by decide)).or (by decide)).or (by decide)).or
    (by decide)).or (by decide))

/-- A run of such characters ends in front of a stop. -/
theorem takeWhile_append {p : Char → Bool} (hp : BreakFree p) {rest : List Char} (hrest : Breaks rest)
    (cs : List Char) : (cs ++ rest).takeWhile p = cs.takeWhile p := by
  induction cs with
  | nil =>
    cases rest with
    | nil => rfl
    | cons c rest => simp [hp c hrest.isBreak]
  | cons c cs ih =>
    by_cases hc : p c
    · simp [hc, ih]
    · simp [hc]

theorem length_takeWhile_le (p : Char → Bool) (cs : List Char) :
    (cs.takeWhile p).length ≤ cs.length :=
  (List.takeWhile_sublist p).length_le

/-- What stands behind a run of such characters. -/
theorem drop_takeWhile_append {p : Char → Bool} (cs rest : List Char) :
    (cs ++ rest).drop (cs.takeWhile p).length = cs.drop (cs.takeWhile p).length ++ rest :=
  List.drop_append_of_le_length (length_takeWhile_le p cs)

/-- An answer `a` that is `b` again, unless `b` is an error, and no longer than `n`. -/
def Agrees (n : Nat) (a b : TokenKind × Nat) : Prop :=
  (∀ e, b.1 ≠ .error e) → a = b ∧ b.2 ≤ n

theorem Agrees.ite {n : Nat} {p : Prop} [Decidable p] {a b a' b' : TokenKind × Nat}
    (h : p → Agrees n a b) (h' : ¬ p → Agrees n a' b') :
    Agrees n (if p then a else a') (if p then b else b') := by
  by_cases hp : p
  · simpa only [if_pos hp] using h hp
  · simpa only [if_neg hp] using h' hp

/-- A scanner whose token, unless it is an error, is the same in front of a stop. -/
def Local (scanner : List Char → TokenKind × Nat) : Prop :=
  ∀ cs rest, Breaks rest → Agrees cs.length (scanner (cs ++ rest)) (scanner cs)

/-- A character that neither closes nor escapes is meant as it stands. -/
theorem quotedBody_plain {quote c : Char} {escapes : Bool} {cs : List Char} (hc : c ≠ quote)
    (he : ¬ (escapes && decide (c = '\\')) = true) :
    quotedBody quote escapes (c :: cs) =
      (quotedBody quote escapes cs).map fun (text, n) => (c :: text, n + 1) := by
  rw [quotedBody.eq_def]
  simp only [if_neg hc, if_neg he]

/-- The closing quote is found again. -/
theorem quotedBody_append {quote : Char} (hq : isBreak quote = false) {escapes : Bool}
    {cs rest text : List Char} {n : Nat} (hrest : Breaks rest)
    (h : quotedBody quote escapes cs = some (text, n)) :
    quotedBody quote escapes (cs ++ rest) = some (text, n) ∧ n ≤ cs.length := by
  fun_induction quotedBody quote escapes cs generalizing text n with
  | case1 => cases h
  | case2 =>
    cases h
    cases rest with
    | nil => simp [quotedBody]
    | cons c rest => simp [quotedBody, ne_of_isBreak hrest.isBreak hq]
  | case3 ds ih =>
    obtain ⟨⟨text', n'⟩, h', hn⟩ := Option.map_eq_some_iff.1 h
    cases hn
    obtain ⟨ih₁, ih₂⟩ := ih h'
    simp [quotedBody, ih₁, ih₂]
  | case4 d ds hd =>
    cases h
    simp [quotedBody, hd]
  | case5 c hc hesc => cases h
  | case6 c hc hesc d ds ih =>
    obtain ⟨⟨text', n'⟩, h', hn⟩ := Option.map_eq_some_iff.1 h
    cases hn
    obtain ⟨ih₁, ih₂⟩ := ih h'
    simp only [Bool.and_eq_true, decide_eq_true_eq] at hesc
    obtain ⟨rfl, rfl⟩ := hesc
    simp [quotedBody, hc, ih₁, ih₂]
  | case7 c ds hc hesc ih =>
    obtain ⟨⟨text', n'⟩, h', hn⟩ := Option.map_eq_some_iff.1 h
    cases hn
    obtain ⟨ih₁, ih₂⟩ := ih h'
    refine ⟨?_, by simpa using ih₂⟩
    rw [List.cons_append, quotedBody_plain hc hesc, ih₁]
    rfl

/-- The closing mark of a comment is found again. -/
theorem commentBody_append {depth : Nat} {cs content : List Char} {n : Nat} (rest : List Char)
    (h : commentBody depth cs = some (content, n)) :
    commentBody depth (cs ++ rest) = some (content, n) ∧ n ≤ cs.length := by
  fun_induction commentBody depth cs generalizing content n with
  | case1 => cases h
  | case2 =>
    cases h
    simp [commentBody]
  | case3 depth ds ih =>
    obtain ⟨⟨text', n'⟩, h', hn⟩ := Option.map_eq_some_iff.1 h
    cases hn
    obtain ⟨ih₁, ih₂⟩ := ih h'
    simp [commentBody, ih₁, ih₂]
  | case4 depth ds ih =>
    obtain ⟨⟨text', n'⟩, h', hn⟩ := Option.map_eq_some_iff.1 h
    cases hn
    obtain ⟨ih₁, ih₂⟩ := ih h'
    simp [commentBody, ih₁, ih₂]
  | case5 depth c ds h₁ h₂ h₃ ih =>
    obtain ⟨⟨text', n'⟩, h', hn⟩ := Option.map_eq_some_iff.1 h
    cases hn
    obtain ⟨ih₁, ih₂⟩ := ih h'
    refine ⟨?_, by simpa using ih₂⟩
    cases ds with
    | nil => simp [commentBody] at h'
    | cons d ds =>
      simp only [List.cons_append] at ih₁ ⊢
      rw [commentBody_plain (d := d) (fun hc hd => ?_) (fun hc hd => h₃ ds hc (by rw [hd])), ih₁]
      · rfl
      · cases depth with
        | zero => exact h₁ ds rfl hc (by rw [hd])
        | succ depth => exact h₂ depth ds rfl hc (by rw [hd])

theorem local_scanString (d : Dialect) {quote : Char} (hq : isBreak quote = false) :
    Local (scanString d quote) := by
  intro cs rest hrest hs
  unfold scanString at hs ⊢
  cases h : quotedBody quote d.backslashEscapes cs with
  | none => simp [h] at hs
  | some found =>
    obtain ⟨happ, hle⟩ := quotedBody_append hq hrest h
    simp [happ, hle]

theorem local_scanDelimited {quote : Char} (hq : isBreak quote = false) :
    Local (scanDelimited quote) := by
  intro cs rest hrest hs
  unfold scanDelimited at hs ⊢
  cases h : quotedBody quote false cs with
  | none => simp [h] at hs
  | some found =>
    obtain ⟨happ, hle⟩ := quotedBody_append hq hrest h
    simp [happ, hle, List.take_append_of_le_length hle]

/-- A run that ends inside a text is not prolonged behind it. -/
theorem takeWhile_append_of_drop {p : Char → Bool} {cs rest : List Char}
    (h : cs.drop (cs.takeWhile p).length ≠ []) : (cs ++ rest).takeWhile p = cs.takeWhile p := by
  induction cs with
  | nil => simp at h
  | cons c cs ih =>
    by_cases hc : p c
    · simp only [List.takeWhile_cons_of_pos hc, List.length_cons, List.drop_succ_cons] at h
      simp [hc, ih h]
    · simp [hc]

theorem snd_ite_le {p : Prop} [Decidable p] {a b : TokenKind × Nat} {n : Nat} (ha : a.2 ≤ n)
    (hb : b.2 ≤ n) : (if p then a else b).2 ≤ n := by
  split <;> assumption

theorem local_scanBlob : Local scanBlob := by
  intro cs rest hrest hs
  cases cs with
  | nil => simp [scanBlob] at hs
  | cons c cs =>
    unfold scanBlob at hs ⊢
    simp only [List.tail_cons, List.cons_append] at hs ⊢
    generalize hp : (fun c => isHexDigit c || isBlank c) = p at hs ⊢
    have hne : cs.drop (cs.takeWhile p).length ≠ [] := by
      intro h
      simp [h] at hs
    simp only [takeWhile_append_of_drop hne, drop_takeWhile_append]
    cases h : cs.drop (cs.takeWhile p).length with
    | nil => exact absurd h hne
    | cons d ds =>
      have hlen : (cs.takeWhile p).length + 1 ≤ cs.length := by
        have := congrArg List.length h
        simp only [List.length_drop, List.length_cons] at this
        omega
      by_cases hd : d = '\''
      · subst hd
        refine ⟨rfl, ?_⟩
        exact snd_ite_le (by simpa using hlen) (by simpa using hlen)
      · simp [h, hd] at hs

theorem fractionOf_append {cs rest : List Char} (hrest : Breaks rest) :
    fractionOf (cs ++ rest) = fractionOf cs := by
  match cs with
  | [] =>
    cases rest with
    | nil => rfl
    | cons c rest =>
      have hc : c ≠ '.' := ne_of_isBreak hrest.isBreak (by decide)
      simp [fractionOf, hc]
  | [c] =>
    cases rest with
    | nil => rfl
    | cons d rest =>
      have hd : d.isDigit = false := breakFree_isDigit d hrest.isBreak
      by_cases hc : c = '.' <;> simp [fractionOf, hc, hd]
  | c :: d :: cs =>
    by_cases hc : c = '.'
    · simp only [hc, List.cons_append, fractionOf]
      rw [← List.cons_append, takeWhile_append breakFree_isDigit hrest]
    · simp [fractionOf, hc]

theorem exponentOf_append {cs rest : List Char} (hrest : Breaks rest) :
    exponentOf (cs ++ rest) = exponentOf cs := by
  match cs with
  | [] =>
    match rest with
    | [] => rfl
    | [c] => rfl
    | c :: d :: rest =>
      have he : c ≠ 'e' := ne_of_isBreak hrest.isBreak (by decide)
      have hE : c ≠ 'E' := ne_of_isBreak hrest.isBreak (by decide)
      simp [exponentOf, he, hE]
  | [e] =>
    cases rest with
    | nil => rfl
    | cons d rest =>
      have hp : d ≠ '+' := ne_of_isBreak hrest.isBreak (by decide)
      have hm : d ≠ '-' := ne_of_isBreak hrest.isBreak (by decide)
      have hd : d.isDigit = false := breakFree_isDigit d hrest.isBreak
      simp [exponentOf, hp, hm, hd]
  | e :: d :: cs =>
    simp only [List.cons_append, exponentOf]
    rw [takeWhile_append breakFree_isDigit hrest, ← List.cons_append,
      takeWhile_append breakFree_isDigit hrest]

theorem length_fractionOf_le (cs : List Char) : (fractionOf cs).length ≤ cs.length := by
  unfold fractionOf
  split
  · rename_i d ds
    have := length_takeWhile_le Char.isDigit (d :: ds)
    split <;> simp only [List.length_cons, List.length_nil] at * <;> omega
  · simp

theorem length_exponentOf_le (cs : List Char) : (exponentOf cs).length ≤ cs.length := by
  unfold exponentOf
  split
  · rename_i e d ds
    have h₁ := length_takeWhile_le Char.isDigit ds
    have h₂ := length_takeWhile_le Char.isDigit (d :: ds)
    repeat' split
    all_goals simp only [List.length_cons, List.length_nil] at *
    all_goals omega
  · simp

theorem scanNumber_append (text : List Char) {rest : List Char} (hrest : Breaks rest) :
    scanNumber (text ++ rest) = scanNumber text := by
  unfold scanNumber
  simp only [takeWhile_append breakFree_isDigit hrest, drop_takeWhile_append,
    fractionOf_append hrest,
    List.drop_append_of_le_length (length_fractionOf_le _), exponentOf_append hrest]

theorem scanNumber_le (text : List Char) : (scanNumber text).2 ≤ text.length - 1 := by
  have h₁ := length_takeWhile_le Char.isDigit text
  have h₂ := length_fractionOf_le (text.drop (text.takeWhile Char.isDigit).length)
  have h₃ := length_exponentOf_le ((text.drop (text.takeWhile Char.isDigit).length).drop
    (fractionOf (text.drop (text.takeWhile Char.isDigit).length)).length)
  simp only [List.length_drop] at h₁ h₂ h₃
  simp only [scanNumber, List.length_append]
  omega

theorem local_scanNumber (c : Char) : Local fun cs => scanNumber (c :: cs) := by
  intro cs rest hrest _
  exact ⟨scanNumber_append (c :: cs) hrest, scanNumber_le (c :: cs)⟩

/-- Whether a text begins with such a character does not depend on what stands behind a stop. -/
theorem head?_append {p : Char → Bool} (hp : BreakFree p) {rest : List Char} (hrest : Breaks rest)
    (cs : List Char) :
    ((cs ++ rest).head?.map p).getD false = (cs.head?.map p).getD false := by
  cases cs with
  | nil =>
    cases rest with
    | nil => rfl
    | cons c rest => simp [hp c hrest.isBreak]
  | cons c cs => rfl

theorem local_scanHost (n : Nat) (sign : Char) : Local (scanHost n sign) := by
  intro cs rest hrest _
  have h₁ := length_takeWhile_le Char.isDigit cs
  have h₂ := length_takeWhile_le isWordChar cs
  unfold scanHost
  simp only [head?_append breakFree_isDigit hrest, takeWhile_append breakFree_isDigit hrest,
    takeWhile_append breakFree_isWordChar hrest, true_and]
  generalize hname : (if (cs.head?.map Char.isDigit).getD false = true then
    cs.takeWhile Char.isDigit else if sign = '?' then [] else cs.takeWhile isWordChar) = name
  have hle : name.length ≤ cs.length := by
    rw [← hname]
    repeat' split
    · exact h₁
    · simp
    · exact h₂
  repeat' split
  · exact hle
  · simp
  · simp

/-- A part that fits into a text opens it or not, whatever stands behind. -/
theorem opens_append {part cs : List Char} (h : part.length ≤ cs.length) (rest : List Char) :
    opens part (cs ++ rest) = opens part cs := by
  induction part generalizing cs with
  | nil => simp [opens]
  | cons p ps ih =>
    cases cs with
    | nil => simp at h
    | cons c cs => simp [opens, ih (by simpa using h)]

theorem length_le_of_opens {part cs : List Char} (h : opens part cs) :
    part.length ≤ cs.length := by
  obtain ⟨rest, rfl⟩ := opens_iff.1 h
  simp

/-- A tag that is found is found again at the same place. -/
theorem find?_append {part cs : List Char} (rest : List Char) {n : Nat} (h : find? part cs = some n) :
    find? part (cs ++ rest) = some n ∧ n + part.length ≤ cs.length := by
  induction cs generalizing n with
  | nil =>
    have hpart : part = [] ∧ n = 0 := by
      simp only [find?, List.isEmpty_iff] at h
      split at h
      · exact ⟨‹_›, by simpa using h.symm⟩
      · cases h
    obtain ⟨rfl, rfl⟩ := hpart
    cases rest <;> simp [find?, opens]
  | cons c cs ih =>
    rw [find?] at h
    split at h
    · rename_i hopen
      cases h
      have hle := length_le_of_opens hopen
      rw [List.cons_append, find?, ← List.cons_append, opens_append hle, if_pos hopen]
      exact ⟨rfl, by simpa using hle⟩
    · rename_i hopen
      obtain ⟨m, hm, hn⟩ := Option.map_eq_some_iff.1 h
      obtain ⟨ih₁, ih₂⟩ := ih hm
      have hle : part.length ≤ (c :: cs).length := by
        simp only [List.length_cons]
        omega
      rw [List.cons_append, find?, ← List.cons_append, opens_append hle, if_neg hopen, ih₁]
      refine ⟨by rw [← hn]; rfl, ?_⟩
      simp only [List.length_cons]
      omega

theorem scanDollar?_append {cs rest : List Char} (hrest : Breaks rest)
    (hs : ∀ a e, scanDollar? cs = some a → a.1 ≠ .error e) :
    scanDollar? (cs ++ rest) = scanDollar? cs ∧ ∀ a, scanDollar? cs = some a → a.2 ≤ cs.length := by
  unfold scanDollar? at hs ⊢
  simp only [takeWhile_append breakFree_isWordChar hrest, drop_takeWhile_append] at hs ⊢
  have hname := length_takeWhile_le isWordChar cs
  generalize hn : cs.takeWhile isWordChar = name at hs hname ⊢
  cases hd : cs.drop name.length with
  | nil =>
    cases rest with
    | nil => simp
    | cons c rest =>
      have hc : c ≠ '$' := ne_of_isBreak hrest.isBreak (by decide)
      simp [hc]
  | cons c body =>
    by_cases hc : c = '$'
    · subst hc
      have hlen := congrArg List.length hd
      simp only [List.length_drop, List.length_cons] at hlen
      simp only [hd, List.cons_append] at hs ⊢
      split
      · simp
      · rename_i hhead
        rw [if_neg hhead] at hs
        cases hf : find? ('$' :: (name ++ ['$'])) body with
        | none =>
          simp only [hf] at hs
          exact absurd rfl (hs _ _ rfl)
        | some n =>
          obtain ⟨happ, hle⟩ := find?_append rest hf
          simp only [List.length_cons, List.length_append, List.length_nil] at hle
          have htake : (body ++ rest).take n = body.take n :=
            List.take_append_of_le_length (by omega)
          simp only [happ, htake, Option.some.injEq, forall_eq', true_and]
          omega
    · simp [hc]

theorem scanSystem_append {cs rest : List Char} (hcs : cs ≠ []) (hrest : Breaks rest) :
    scanSystem (cs ++ rest) = scanSystem cs ∧ (scanSystem cs).2 ≤ cs.length := by
  have hp : BreakFree fun c => isWordChar c || c == '.' := breakFree_isWordChar.or (by decide)
  cases cs with
  | nil => exact absurd rfl hcs
  | cons c cs =>
    have := length_takeWhile_le (fun c => isWordChar c || c == '.') cs
    simp only [scanSystem, List.cons_append, List.tail_cons, takeWhile_append hp hrest,
      List.length_cons, true_and]
    omega

theorem nameLength_append {lx : Lexicon} (hlx : lx.delimiter = []) {rest : List Char}
    (hrest : Breaks rest) (cs : List Char) :
    nameLength lx (cs ++ rest) = nameLength lx cs ∧ nameLength lx cs ≤ cs.length := by
  induction cs with
  | nil =>
    cases rest with
    | nil => simp [nameLength]
    | cons c rest => simp [nameLength, breakFree_isNameChar c hrest.isBreak]
  | cons c cs ih =>
    have hat (cs : List Char) : lx.atDelimiter cs = false := by simp [Lexicon.atDelimiter, hlx]
    simp only [List.cons_append, nameLength, hat, ih.1]
    have := ih.2
    split <;> simp only [List.length_cons, true_and] <;> omega

theorem local_scanName {lx : Lexicon} (hlx : lx.delimiter = []) (c : Char) :
    Local (scanName lx c) := by
  intro cs rest hrest _
  obtain ⟨happ, hle⟩ := nameLength_append hlx hrest cs
  simp [scanName, happ, hle, List.take_append_of_le_length hle]

/-- A text does not begin with a character because of what stands behind it. -/
theorem not_cons_append {stop : Char → Bool} {cs rest : List Char}
    (hrest : ∀ c, rest.head? = some c → stop c) {k : Char} (hk : stop k = false)
    (h : ∀ tail, cs = k :: tail → False) (tail : List Char) : cs ++ rest = k :: tail → False := by
  intro heq
  cases cs with
  | nil =>
    have := hrest k (by simp [show rest = k :: tail from heq])
    rw [hk] at this
    cases this
  | cons c cs =>
    cases heq
    exact h cs rfl

/-- An operator is the same in front of a stop. -/
theorem scanPunct_append (lx : Lexicon) (c : Char) {cs rest : List Char} (hrest : Ends rest) :
    Agrees cs.length (scanPunct lx c (cs ++ rest)) (scanPunct lx c cs) := by
  intro hs
  clear hs
  have hn {k : Char} (hk : isStop k = false) {cs : List Char} (h : ∀ tail, cs = k :: tail → False) :=
    not_cons_append hrest hk h
  fun_cases scanPunct lx c cs
  case case15 h => exact ⟨scanPunct.eq_15 lx _ (hn rfl h), Nat.zero_le _⟩
  case case18 hd h => exact ⟨(scanPunct.eq_17 lx _ (hn rfl h)).trans (if_pos hd), Nat.zero_le _⟩
  case case19 hd h => exact ⟨(scanPunct.eq_17 lx _ (hn rfl h)).trans (if_neg hd), Nat.zero_le _⟩
  case case21 h => exact ⟨scanPunct.eq_19 lx _ (hn rfl h), Nat.zero_le _⟩
  case case25 h₁ h₂ h₃ =>
    exact ⟨scanPunct.eq_23 lx _ (hn rfl h₁) (hn rfl h₂) (hn rfl h₃), Nat.zero_le _⟩
  case case28 h₁ h₂ => exact ⟨scanPunct.eq_26 lx _ (hn rfl h₁) (hn rfl h₂), Nat.zero_le _⟩
  case case32 tail h hd =>
    exact ⟨(scanPunct.eq_29 lx _ (hn rfl h)).trans (if_pos hd), by simp⟩
  case case33 tail h hd =>
    exact ⟨(scanPunct.eq_29 lx _ (hn rfl h)).trans (if_neg hd), Nat.zero_le _⟩
  case case35 h => exact ⟨scanPunct.eq_31 lx _ (hn rfl h), Nat.zero_le _⟩
  case case36 =>
    refine ⟨?_, Nat.zero_le _⟩
    rw [scanPunct.eq_32]
    all_goals first
      | assumption
      | exact fun _ hc => absurd hc (by assumption)
      | exact fun tail hc =>
          hn rfl (fun t => ‹∀ tail, c = '!' → cs = '=' :: tail → False› t hc) tail
      | exact fun tail hc =>
          hn rfl (fun t => ‹∀ tail, c = '!' → cs = '~' :: tail → False› t hc) _
  all_goals refine ⟨by first | rfl | simp [scanPunct, *], by simp⟩

theorem startsName_append {cs rest : List Char} (hrest : Breaks rest) :
    startsName (cs ++ rest) = startsName cs := by
  cases cs with
  | nil =>
    cases rest with
    | nil => rfl
    | cons c rest =>
      have word : isAlphabetic c = false := by
        have := breakFree_isAlphanumeric c hrest.isBreak
        exact (Bool.or_eq_false_iff.1 this).1
      have underscore : c ≠ '_' := ne_of_isBreak hrest.isBreak (by decide)
      simp [startsName, word, underscore]
  | cons c cs => rfl

theorem startsDigit_append {cs rest : List Char} (hrest : Breaks rest) :
    startsDigit (cs ++ rest) = startsDigit cs := by
  cases cs with
  | nil =>
    cases rest with
    | nil => rfl
    | cons c rest => exact breakFree_isDigit c hrest.isBreak
  | cons c cs => rfl

/-- Which character a text begins with does not depend on what stands behind a stop. -/
theorem head?_beq_append {k : Char} (hk : isBreak k = false) {cs rest : List Char}
    (hrest : Breaks rest) : ((cs ++ rest).head? == some k) = (cs.head? == some k) := by
  cases cs with
  | nil =>
    cases rest with
    | nil => rfl
    | cons c rest => simp [ne_of_isBreak hrest.isBreak hk]
  | cons c cs => rfl

theorem scanPlain_append {lx : Lexicon} (hlx : lx.delimiter = []) (n : Nat) (c : Char)
    {cs rest : List Char} (hrest : Breaks rest)
    (punct : Agrees cs.length (scanPunct lx c (cs ++ rest)) (scanPunct lx c cs)) :
    Agrees cs.length (scanPlain lx n c (cs ++ rest)) (scanPlain lx n c cs) := by
  unfold scanPlain
  simp only [head?_beq_append (k := '@') rfl hrest, startsName_append hrest]
  refine Agrees.ite (fun _ => local_scanName hlx c cs rest hrest) fun _ => ?_
  refine Agrees.ite (fun hat _ => ?_) fun _ => ?_
  · have hne : cs ≠ [] := by
      rintro rfl
      simp at hat
    exact scanSystem_append hne hrest
  · exact Agrees.ite (fun _ => local_scanHost n c cs rest hrest) fun _ => punct

/-- A text opens no comment because of what stands behind it. -/
theorem commentLead_append {hash : Bool} {c : Char} {cs rest : List Char} (hrest : Breaks rest)
    (hopen : commentLead hash (c :: cs) ≠ .unterminated)
    (hgap : ∀ more, commentLead hash (c :: cs) ≠ .comment more) :
    commentLead hash (c :: (cs ++ rest)) = commentLead hash (c :: cs) := by
  generalize ht : c :: cs = text at hopen hgap ⊢
  fun_cases commentLead hash text
  case case1 ds => simp [commentLead] at hgap
  case case2 ds h => simp [commentLead, h] at hopen
  case case3 ds content n h hp =>
    cases ht
    simp only [List.cons_append, commentLead, (commentBody_append rest h).1, if_pos hp]
  case case4 ds content n h hp => simp [commentLead, h, hp] at hgap
  case case5 ds h => simp [commentLead, h] at hgap
  case case6 ds h =>
    cases ht
    have hmark : (hash && (cs ++ rest).head? != some '#') = (hash && cs.head? != some '#') := by
      rw [bne, bne, head?_beq_append rfl hrest]
    rw [commentLead, hmark, if_neg h]
  case case7 h₁ h₂ h₃ =>
    subst ht
    refine commentLead.eq_4 hash _ ?_ ?_ ?_
    · intro tail h
      injection h with hc hcs
      exact not_cons_append hrest rfl (fun t ht => h₁ t (by rw [hc, ht])) tail hcs
    · intro tail h
      injection h with hc hcs
      exact not_cons_append hrest rfl (fun t ht => h₂ t (by rw [hc, ht])) tail hcs
    · intro tail h
      injection h with hc hcs
      exact h₃ cs (by rw [hc])

theorem bodyOf_append {cs rest : List Char} (hrest : Breaks rest) :
    Placeholder.bodyOf (cs ++ rest) = Placeholder.bodyOf cs := by
  cases cs with
  | nil =>
    cases rest with
    | nil => rfl
    | cons c rest =>
      have hp : c ≠ '+' := ne_of_isBreak hrest.isBreak (by decide)
      have hm : c ≠ '-' := ne_of_isBreak hrest.isBreak (by decide)
      simp [Placeholder.bodyOf, hp, hm, breakFree_isBodyChar c hrest.isBreak]
  | cons c cs =>
    simp only [List.cons_append, Placeholder.bodyOf]
    rw [takeWhile_append breakFree_isBodyChar hrest, ← List.cons_append,
      takeWhile_append breakFree_isBodyChar hrest]

theorem length_bodyOf_le (cs : List Char) : (Placeholder.bodyOf cs).length ≤ cs.length := by
  cases cs with
  | nil => simp [Placeholder.bodyOf]
  | cons c cs =>
    have h₁ := length_takeWhile_le Placeholder.isBodyChar cs
    have h₂ := length_takeWhile_le Placeholder.isBodyChar (c :: cs)
    rw [Placeholder.bodyOf]
    split
    · simpa using h₁
    · exact h₂

/-- Behind blanks alone a placeholder has no name. -/
theorem bodyOf_blanks {cs : List Char}
    (h : cs.drop (cs.takeWhile fun c => c == ' ' || c == '\t').length = []) :
    Placeholder.bodyOf cs = [] := by
  cases cs with
  | nil => rfl
  | cons c cs =>
    by_cases hsp : c = ' '
    · subst hsp
      rfl
    · by_cases htab : c = '\t'
      · subst htab
        rfl
      · simp [hsp, htab] at h

theorem scanPlaceholder_append {cs rest : List Char} (hrest : Breaks rest)
    (hs : ∀ e, (Placeholder.scan cs).1 ≠ .error e) :
    Placeholder.scan (cs ++ rest) = Placeholder.scan cs ∧ (Placeholder.scan cs).2 ≤ cs.length := by
  unfold Placeholder.scan at hs ⊢
  have hblanks := length_takeWhile_le (fun c => c == ' ' || c == '\t') cs
  have hne : cs.drop (cs.takeWhile fun c => c == ' ' || c == '\t').length ≠ [] := by
    intro h
    simp only [h, bodyOf_blanks h] at hs
    exact hs _ rfl
  simp only [takeWhile_append_of_drop hne, drop_takeWhile_append, bodyOf_append hrest] at hs ⊢
  generalize (cs.takeWhile fun c => c == ' ' || c == '\t').length = blanks at hs hne hblanks ⊢
  have hlen := congrArg List.length (List.take_append_drop blanks cs)
  simp only [List.length_append, List.length_take] at hlen
  generalize cs.drop blanks = ds at hs hne hlen ⊢
  by_cases hopen : ∃ inner, ds = '/' :: '*' :: inner
  · obtain ⟨inner, rfl⟩ := hopen
    cases h : commentBody 0 inner with
    | none => simp [h] at hs
    | some found =>
      obtain ⟨content, m⟩ := found
      obtain ⟨happ, hle⟩ := commentBody_append rest h
      simp only [List.length_cons] at hlen
      refine ⟨by simp only [List.cons_append, happ, h], ?_⟩
      simp only [h]
      omega
  · have h₁ : ∀ inner, ds ≠ '/' :: '*' :: inner := fun inner h => hopen ⟨inner, h⟩
    have h₂ : ∀ inner, ds ++ rest ≠ '/' :: '*' :: inner := by
      intro inner heq
      cases ds with
      | nil => exact hne rfl
      | cons d ds =>
        injection heq with hd hds
        exact not_cons_append hrest rfl (fun t ht => h₁ t (by rw [hd, ht])) inner hds
    split
    · exact absurd ‹_› (h₂ _)
    · exact ⟨rfl, length_bodyOf_le cs⟩

theorem le_of_commentLead {hash : Bool} {c : Char} {cs content : List Char} {more : Nat}
    (h : commentLead hash (c :: cs) = .placeholder content more) : more ≤ cs.length := by
  generalize ht : c :: cs = text at h
  fun_cases commentLead hash text
  case case3 ds content' n hbody hp =>
    cases ht
    simp only [commentLead, hbody, hp, if_true, CommentLead.placeholder.injEq] at h
    have := (commentBody_append [] hbody).2
    simp only [List.length_cons]
    omega
  case case6 ds hmark =>
    rw [commentLead, if_neg hmark] at h
    cases h
  all_goals simp_all [commentLead]

/-- What a scanner reads behind no comment is the same in front of a break, if operators are. -/
theorem scan_append_of_punct {lx : Lexicon} (hlx : lx.delimiter = []) {n : Nat} {c : Char}
    {cs rest : List Char} (hrest : Breaks rest)
    (hgap : ∀ more, commentLead lx.dialect.hashComments (c :: cs) ≠ .comment more)
    (punct : Agrees cs.length (scanPunct lx c (cs ++ rest)) (scanPunct lx c cs)) :
    Agrees cs.length (scan lx n c (cs ++ rest)) (scan lx n c cs) := by
  intro hs
  have hat (cs : List Char) : lx.atDelimiter cs = false := by simp [Lexicon.atDelimiter, hlx]
  have hopen : commentLead lx.dialect.hashComments (c :: cs) ≠ .unterminated := by
    intro h
    simp [scan, h] at hs
  revert hs
  change Agrees _ _ _
  unfold scan
  rw [commentLead_append hrest hopen hgap]
  simp only [hat, head?_beq_append (k := '#') rfl hrest, head?_beq_append (k := '\'') rfl hrest,
    startsDigit_append hrest]
  cases hlead : commentLead lx.dialect.hashComments (c :: cs) with
  | unterminated => exact absurd hlead hopen
  | comment more => exact absurd hlead (hgap more)
  | placeholder content more => exact fun _ => ⟨rfl, le_of_commentLead hlead⟩
  | none =>
    simp only [Bool.false_eq_true, if_false]
    refine Agrees.ite (fun hmark => ?_) fun _ => ?_
    · cases cs with
      | nil => simp at hmark
      | cons d cs =>
        intro hs
        obtain ⟨happ, hle⟩ := @scanPlaceholder_append cs rest hrest hs
        exact ⟨by simp only [List.cons_append, List.tail_cons, happ], Nat.succ_le_succ hle⟩
    refine Agrees.ite (fun _ => local_scanString _ rfl cs rest hrest) fun _ => ?_
    refine Agrees.ite (fun _ => ?_) fun _ => ?_
    · exact Agrees.ite (fun _ => local_scanString _ rfl cs rest hrest)
        fun _ => local_scanDelimited rfl cs rest hrest
    refine Agrees.ite (fun _ => local_scanDelimited rfl cs rest hrest) fun _ => ?_
    refine Agrees.ite (fun _ => local_scanBlob cs rest hrest) fun _ => ?_
    refine Agrees.ite (fun _ => local_scanNumber c cs rest hrest) fun _ => ?_
    cases decide (c = '$') && lx.dialect.dollarQuotedStrings with
    | false => exact scanPlain_append hlx n c hrest punct
    | true =>
      simp only [if_true]
      cases ha : scanDollar? cs with
      | none =>
        have happ := (@scanDollar?_append cs rest hrest (by simp [ha])).1
        rw [happ, ha]
        exact scanPlain_append hlx n c hrest punct
      | some answer =>
        intro hs
        have hs' : ∀ a e, scanDollar? cs = some a → a.1 ≠ .error e := by
          intro a e h
          rw [ha] at h
          cases h
          exact hs e
        obtain ⟨happ, hle⟩ := scanDollar?_append hrest hs'
        rw [happ, ha]
        exact ⟨rfl, hle _ ha⟩

/-- What a scanner reads behind no comment is the same in front of a stop. -/
theorem scan_append {lx : Lexicon} (hlx : lx.delimiter = []) {n : Nat} {c : Char}
    {cs rest : List Char} (hrest : Ends rest)
    (hgap : ∀ more, commentLead lx.dialect.hashComments (c :: cs) ≠ .comment more) :
    Agrees cs.length (scan lx n c (cs ++ rest)) (scan lx n c cs) :=
  scan_append_of_punct hlx hrest.breaks hgap (scanPunct_append lx c hrest)

namespace Lexicon

variable {lx : Lexicon} {n : Nat} {c : Char} {cs rest : List Char}

/-- A comment that reaches beyond a text leaves nothing of it. -/
theorem drop_gapLength_inside {hash : Bool} {inside : Nat} (h : cs.length ≤ inside) :
    cs.drop (gapLength hash inside cs) = [] := by
  induction cs generalizing inside with
  | nil => simp
  | cons c cs ih =>
    cases inside with
    | zero => simp at h
    | succ inside =>
      simp only [gapLength, List.drop_succ_cons]
      exact ih (by simpa using h)

/-- A line that ends inside a text has the same length whatever stands behind. -/
theorem lineLength_append (h : lineLength cs < cs.length) :
    lineLength (cs ++ rest) = lineLength cs := by
  unfold lineLength at h ⊢
  rw [takeWhile_append_of_drop]
  intro hd
  have := congrArg List.length hd
  simp only [List.length_drop, List.length_nil] at this
  omega

/-- A comment that ends inside a text is the same whatever stands behind. -/
theorem commentLead_comment_append {hash : Bool} {more : Nat}
    (h : commentLead hash (c :: cs) = .comment more) (hmore : more < cs.length) :
    commentLead hash (c :: (cs ++ rest)) = .comment more := by
  generalize ht : c :: cs = text at h
  fun_cases commentLead hash text
  case case1 ds =>
    cases ht
    simp only [commentLead, CommentLead.comment.injEq] at h
    simp only [List.length_cons] at hmore
    simp only [List.cons_append, commentLead, lineLength_append (show lineLength ds < ds.length by omega), h]
  case case4 ds content n hbody hp =>
    cases ht
    simp only [commentLead, hbody, hp] at h
    simp only [List.cons_append, commentLead, (commentBody_append rest hbody).1, hp]
    exact h
  case case5 ds hmark =>
    cases ht
    simp only [commentLead, hmark, if_true, CommentLead.comment.injEq] at h
    have hhead : (hash && (cs ++ rest).head? != some '#') = true := by
      cases cs with
      | nil => simp at hmore
      | cons d ds => exact hmark
    simp only [commentLead, hhead, if_true, lineLength_append (show lineLength cs < cs.length by omega), h]
  case case6 ds hmark =>
    cases ht
    rw [commentLead, if_neg hmark] at h
    cases h
  all_goals simp_all [commentLead]

/-- The first word of a text begins at the same place whatever stands behind the text, as long as it
begins no comment together with it. -/
theorem drop_gapLength_append {hash : Bool} {inside : Nat} {tail : List Char}
    (h : cs.drop (gapLength hash inside cs) = c :: tail)
    (hlead : ∀ more, commentLead hash (c :: (tail ++ rest)) ≠ .comment more) :
    (cs ++ rest).drop (gapLength hash inside (cs ++ rest)) = c :: (tail ++ rest) := by
  fun_induction gapLength hash inside cs with
  | case1 => simp at h
  | case2 inside d ds ih =>
    simp only [List.drop_succ_cons] at h
    simpa only [List.cons_append, gapLength, List.drop_succ_cons] using ih h
  | case3 d ds hblank ih =>
    simp only [List.drop_succ_cons] at h
    simpa only [List.cons_append, gapLength, hblank, if_true, List.drop_succ_cons] using ih h
  | case4 d ds hblank more hcomment ih =>
    simp only [List.drop_succ_cons] at h
    have hmore : more < ds.length := by
      refine Nat.lt_of_not_le fun hle => ?_
      rw [drop_gapLength_inside hle] at h
      cases h
    rw [List.cons_append, gapLength, if_neg hblank, commentLead_comment_append hcomment hmore]
    simpa only [List.drop_succ_cons] using ih h
  | case5 d ds hblank hcomment =>
    simp only [List.drop_zero] at h
    cases h
    rw [List.cons_append, gapLength, if_neg hblank]
    split
    · rename_i more hmore
      exact absurd hmore (hlead more)
    · rfl

/-- The gap in front of a word ends where no comment begins. -/
theorem commentLead_drop_gapLength {hash : Bool} {inside : Nat}
    (h : cs.drop (gapLength hash inside cs) = c :: rest) (more : Nat) :
    commentLead hash (c :: rest) ≠ .comment more := by
  fun_induction gapLength hash inside cs with
  | case1 => simp at h
  | case2 inside d ds ih => exact ih (by simpa using h)
  | case3 d ds hblank ih => exact ih (by simpa using h)
  | case4 d ds hblank more hcomment ih => exact ih (by simpa using h)
  | case5 d ds hblank hcomment =>
    rw [List.drop_zero] at h
    rw [← h]
    exact hcomment more

/-- The first word of a text begins no comment. -/
theorem commentLead_ahead (h : lx.ahead cs = c :: rest) (more : Nat) :
    commentLead lx.dialect.hashComments (c :: rest) ≠ .comment more :=
  commentLead_drop_gapLength h more

/-- The number of bare placeholders up to the end of words. -/
def bareAfter (n : Nat) (ws : List Word) : Nat := ws.foldl (fun n w => countBare n w.lexeme) n

/-- A text that ends with a word is lexed by itself. -/
theorem words_append (hlx : lx.delimiter = []) (hsound : ∀ w ∈ lx.words n cs, w.Sound)
    (htrailing : lx.trailing n cs = []) (hrest : Ends rest) :
    lx.words n (cs ++ rest) = lx.words n cs ++ lx.words (bareAfter n (lx.words n cs)) rest := by
  induction hk : cs.length using Nat.strongRecOn generalizing cs n with
  | ind k ih =>
    cases h : lx.ahead cs with
    | nil =>
      rw [trailing_of_ahead_nil h] at htrailing
      subst htrailing
      simp [bareAfter]
    | cons c tail =>
      rw [words_of_ahead_cons h] at hsound ⊢
      rw [trailing_of_ahead_cons h] at htrailing
      have hgap := commentLead_ahead h
      have hs : ∀ e, (scan lx n c tail).1 ≠ .error e := hsound _ List.mem_cons_self
      have hopen : commentLead lx.dialect.hashComments (c :: tail) ≠ .unterminated := by
        intro hlead
        simp [scan, hlead] at hs
      obtain ⟨hscan, hle⟩ := scan_append hlx hrest hgap hs
      have hahead : lx.ahead (cs ++ rest) = c :: (tail ++ rest) := by
        refine drop_gapLength_append h fun more => ?_
        rw [commentLead_append hrest.breaks hopen hgap]
        exact hgap more
      have hlt : (tail.drop (scan lx n c tail).2).length < k := by
        have := lx.length_ahead_le cs
        rw [h, List.length_cons] at this
        simp only [List.length_drop]
        omega
      rw [words_of_ahead_cons hahead, hscan, List.take_append_of_le_length hle,
        List.drop_append_of_le_length hle, List.cons_append,
        ih _ hlt (fun w hw => hsound w (List.mem_cons_of_mem _ hw)) htrailing rfl]
      rfl

end Lexicon

end BoundSql.Token
