import BoundSql.Proofs.Script.Blanks
import BoundSql.Proofs.Text.CharClass

/-!
# `DELIMITER` lines

`DelimiterLine` says without the scanner how a text begins that sets the delimiter:
`Place.isSome_delimiterLine?`. Two facts about such lines follow. A line that ends in a text sets
the same delimiter whatever the text goes on with, and what begins with a dash opens none.
-/

namespace BoundSql

open Text Token

namespace Text

variable {b c : Char} {cs w : List Char} {ws : List (List Char)}

theorem words_cons_of_blank (h : isBlank c) (cs : List Char) : words (c :: cs) = words cs := by
  rw [words.eq_def]
  exact if_pos h

/-- A word ends in front of a blank. -/
theorem words_append_blank (solid : ∀ c ∈ w, isBlank c = false) (nonempty : w ≠ []) (hb : isBlank b)
    (cs : List Char) : words (w ++ b :: cs) = w :: words cs := by
  induction w with
  | nil => exact absurd rfl nonempty
  | cons c w ih =>
    have hc : ¬ isBlank c = true := by simp [solid c List.mem_cons_self]
    cases w with
    | nil =>
      rw [List.cons_append, List.nil_append, words, if_neg hc]
      simp only [if_pos hb, words_cons_of_blank hb]
    | cons d w =>
      have hd : ¬ isBlank d = true := by simp [solid d]
      have tail := ih (fun e he => solid e (List.mem_cons_of_mem c he)) (List.cons_ne_nil d w)
      rw [List.cons_append] at tail
      rw [List.cons_append, List.cons_append, words.eq_def]
      simp only [if_neg hc, if_neg hd, tail]

/-- A character that is no blank belongs to a word. -/
theorem words_ne_nil (hc : isBlank c = false) (cs : List Char) : words (c :: cs) ≠ [] := by
  rw [words.eq_def]
  simp only [hc, Bool.false_eq_true, if_false]
  split
  · exact List.cons_ne_nil _ _
  · split
    · exact List.cons_ne_nil _ _
    · split <;> exact List.cons_ne_nil _ _

/-- Behind a row of blanks the words are the same. -/
theorem words_append_blanks (h : AllBlank w) (cs : List Char) : words (w ++ cs) = words cs := by
  induction w with
  | nil => rfl
  | cons c w ih =>
    rw [List.cons_append, words_cons_of_blank (h c List.mem_cons_self)]
    exact ih fun d hd => h d (List.mem_cons_of_mem c hd)

/-- Where the first word of a text stands. -/
theorem words_eq_cons (h : words cs = w :: ws) : ∃ blanks rest, cs = blanks ++ w ++ rest ∧
    AllBlank blanks ∧ (w ≠ [] ∧ ∀ c ∈ w, isBlank c = false) ∧
      (∀ c, rest.head? = some c → isBlank c) ∧ words rest = ws := by
  induction cs generalizing w ws with
  | nil => cases h
  | cons c cs ih =>
    by_cases hc : isBlank c
    · rw [words_cons_of_blank hc] at h
      obtain ⟨blanks, rest, rfl, hblanks, found⟩ := ih h
      refine ⟨c :: blanks, rest, by simp, ?_, found⟩
      intro d hd
      rcases List.mem_cons.1 hd with rfl | hd
      · exact hc
      · exact hblanks d hd
    · have solid : isBlank c = false := by simpa using hc
      have none : AllBlank [] := fun d hd => by cases hd
      rw [words.eq_def] at h
      simp only [if_neg hc] at h
      cases cs with
      | nil =>
        cases h
        refine ⟨[], [], rfl, none, ⟨List.cons_ne_nil c [], ?_⟩, ?_, rfl⟩
        · simpa using solid
        · simp
      | cons d ds =>
        by_cases hd : isBlank d
        · simp only [if_pos hd] at h
          cases h
          refine ⟨[], d :: ds, rfl, none, ⟨List.cons_ne_nil c [], ?_⟩, ?_, rfl⟩
          · simpa using solid
          · simpa using hd
        · simp only [if_neg hd] at h
          split at h
          · rename_i nothing
            exact absurd nothing (words_ne_nil (by simpa using hd) ds)
          · rename_i first others found
            cases h
            obtain ⟨blanks, rest, text, hblanks, hw, hrest, behind⟩ := ih found
            obtain rfl : blanks = [] := by
              cases blanks with
              | nil => rfl
              | cons e blanks =>
                cases text
                exact absurd (hblanks d List.mem_cons_self) hd
            refine ⟨[], rest, by simp [text], none, ⟨List.cons_ne_nil c first, ?_⟩, hrest, behind⟩
            intro e he
            rcases List.mem_cons.1 he with rfl | he
            · exact solid
            · exact hw.2 e he

end Text

/-- The word that opens a `DELIMITER` line. -/
def Place.command : List Char := "DELIMITER".toList

/-- A `DELIMITER` line stands at the beginning of the text, behind blanks: the command, in any case,
and behind it in the same line another word. -/
inductive Place.DelimiterLine : List Char → Prop
  | intro {blanks w gap : List Char} {c : Char} {rest : List Char} : AllBlank blanks →
    sameWord w command → gap ≠ [] → AllBlank gap → '\n' ∉ gap → isBlank c = false →
    DelimiterLine (blanks ++ w ++ gap ++ c :: rest)

namespace Place

variable {c : Char} {cs w line : List Char}

theorem length_of_sameWord (h : sameWord w command) : w.length = 9 := by
  have upper := congrArg List.length (beq_iff_eq.1 h)
  have nine : (Text.upper command).length = 9 := by decide
  rw [nine, Text.upper, List.length_map] at upper
  exact upper

/-- The command is made of letters. -/
theorem toUpper_mem_of_sameWord (h : sameWord w command) (hc : c ∈ w) :
    c.toUpper ∈ command := by
  have member : c.toUpper ∈ Text.upper command := by
    rw [← beq_iff_eq.1 h]
    exact List.mem_map_of_mem hc
  exact member

theorem ne_of_sameWord {k : Char} (h : sameWord w command) (hk : k.toUpper ∉ command) : k ∉ w :=
  fun member => hk (toUpper_mem_of_sameWord h member)

theorem isBlank_of_sameWord (h : sameWord w command) (hc : c ∈ w) : isBlank c = false := by
  refine isBlank_of (p := fun c => command.contains c.toUpper) ?_ ?_
  · decide
  · rw [List.contains_iff_mem]
    exact toUpper_mem_of_sameWord h hc

/-- The first line is a part of the text without a line break. -/
theorem firstLine_spec (cs : List Char) :
    '\n' ∉ firstLine cs ∧ ∃ rest, cs = firstLine cs ++ rest := by
  have line : '\n' ∉ cs.takeWhile (· != '\n') := by
    intro newline
    have := List.all_eq_true.1 List.all_takeWhile _ newline
    simp at this
  have whole : cs = cs.takeWhile (· != '\n') ++ cs.dropWhile (· != '\n') :=
    List.takeWhile_append_dropWhile.symm
  unfold firstLine
  simp only
  split
  · refine ⟨fun newline => line ((List.dropLast_prefix _).subset newline), ?_⟩
    obtain ⟨last, hlast⟩ := List.dropLast_prefix (cs.takeWhile (· != '\n'))
    refine ⟨last ++ cs.dropWhile (· != '\n'), ?_⟩
    rw [← List.append_assoc, hlast]
    exact whole
  · exact ⟨line, _, whole⟩

/-- The first line ends at the line break, or at the carriage return in front of it. -/
theorem firstLine_append_newline (h : '\n' ∉ line) (cs : List Char) :
    firstLine (line ++ '\n' :: cs) = if line.getLast? == some '\r' then line.dropLast else line := by
  have inside : ∀ c ∈ line, (c != '\n') = true := by
    intro c hc
    rw [bne_iff_ne]
    rintro rfl
    exact h hc
  have taken : (line ++ '\n' :: cs).takeWhile (· != '\n') = line := by
    rw [List.takeWhile_append_of_pos inside, List.takeWhile_cons_of_neg (by decide), List.append_nil]
  have more : line.length < (line ++ '\n' :: cs).length := by simp
  simp only [firstLine, taken, more, decide_true, Bool.true_and]

/-- The first line goes beyond the first character of it that is no blank. -/
theorem firstLine_append_cons (h : '\n' ∉ line) (hc : isBlank c = false) (cs : List Char) :
    ∃ rest, firstLine (line ++ c :: cs) = line ++ c :: rest := by
  have inside : ∀ d ∈ line ++ [c], (d != '\n') = true := by
    intro d hd
    rw [bne_iff_ne]
    rintro rfl
    rcases List.mem_append.1 hd with hd | hd
    · exact h hd
    · rw [← List.mem_singleton.1 hd] at hc
      cases hc
  have taken : (line ++ c :: cs).takeWhile (· != '\n') =
      line ++ c :: cs.takeWhile (· != '\n') := by
    have split : line ++ c :: cs = line ++ [c] ++ cs := by simp
    rw [split, List.takeWhile_append_of_pos inside]
    simp
  unfold firstLine
  simp only [taken]
  split
  · rename_i cut
    cases tail : cs.takeWhile (· != '\n') with
    | nil =>
      have last : (line ++ [c]).getLast? = some '\r' := by
        rw [tail] at cut
        exact beq_iff_eq.1 (Bool.and_eq_true_iff.1 cut).2
      rw [List.getLast?_concat, Option.some.injEq] at last
      rw [last] at hc
      cases hc
    | cons d ds =>
      refine ⟨(d :: ds).dropLast, ?_⟩
      rw [List.dropLast_append_of_ne_nil (List.cons_ne_nil _ _), List.dropLast_cons_of_ne_nil
        (List.cons_ne_nil _ _)]
  · exact ⟨_, rfl⟩

/-- Behind the blanks a text begins with no blank. -/
theorem drop_blanks (cs : List Char) : ∃ blanks rest, cs = blanks ++ rest ∧ AllBlank blanks ∧
    (∀ c, rest.head? = some c → isBlank c = false) ∧ (cs.takeWhile isBlank).length = blanks.length ∧
      cs.drop (cs.takeWhile isBlank).length = rest := by
  have whole : cs.takeWhile isBlank ++ cs.dropWhile isBlank = cs := List.takeWhile_append_dropWhile
  have behind := @List.drop_left Char (cs.takeWhile isBlank) (cs.dropWhile isBlank)
  rw [whole] at behind
  refine ⟨_, _, whole.symm, List.all_eq_true.1 List.all_takeWhile, fun c hc => ?_, rfl, behind⟩
  have first := List.head?_dropWhile_not isBlank cs
  rw [hc] at first
  exact first

/-- Where the first line of a text holds two words, they stand there with blanks between them. -/
theorem exists_gap_of_words {text d : List Char} {ws : List (List Char)}
    (solid : ∀ c, text.head? = some c → isBlank c = false)
    (found : words (firstLine text) = w :: d :: ws) : ∃ gap c rest, text = w ++ gap ++ c :: rest ∧
      gap ≠ [] ∧ AllBlank gap ∧ '\n' ∉ gap ∧ isBlank c = false := by
  obtain ⟨single, behindLine, line⟩ := firstLine_spec text
  obtain ⟨before, afterWord, spelled, hbefore, hw, hafter, others⟩ := words_eq_cons found
  obtain ⟨gap, last, spelledGap, hgap, hd, -, -⟩ := words_eq_cons others
  obtain ⟨c, d, rfl⟩ := List.exists_cons_of_ne_nil hd.1
  have hc := hd.2 c List.mem_cons_self
  obtain rfl : before = [] := by
    cases before with
    | nil => rfl
    | cons b before =>
      have first := solid b (by rw [line, spelled]; rfl)
      rw [hbefore b List.mem_cons_self] at first
      cases first
  refine ⟨gap, c, d ++ last ++ behindLine, ?_, ?_, hgap, ?_, hc⟩
  · rw [line, spelled, spelledGap]
    simp
  · rintro rfl
    have blank := hafter c (by rw [spelledGap]; rfl)
    rw [hc] at blank
    cases blank
  · intro newline
    apply single
    rw [spelled, spelledGap]
    simp [newline]

theorem delimiterLine_of_isSome (h : (delimiterLine? cs).isSome) : DelimiterLine cs := by
  obtain ⟨blanks, text, rfl, hblanks, solid, -, behind⟩ := drop_blanks cs
  unfold delimiterLine? at h
  simp only [behind] at h
  split at h
  · rename_i w d ws found
    split at h
    · rename_i same
      simp only [Bool.and_eq_true, decide_eq_true_eq] at same
      obtain ⟨gap, c, rest, rfl, nonempty, hgap, oneLine, hc⟩ := exists_gap_of_words solid found
      have word : (w ++ gap ++ c :: rest).take 9 = w := by
        rw [List.append_assoc]
        exact List.take_left' same.2
      rw [word] at same
      rw [← List.append_assoc, ← List.append_assoc]
      exact .intro hblanks same.1 nonempty hgap oneLine hc
    · cases h
  · cases h

theorem DelimiterLine.isSome (h : DelimiterLine cs) : (delimiterLine? cs).isSome := by
  obtain ⟨blank, same, gapNonempty, gapBlank, single, solid⟩ := h
  rename_i blanks w gap c rest
  have length := length_of_sameWord same
  have solidWord : ∀ c ∈ w, isBlank c = false := fun c hc => isBlank_of_sameWord same hc
  obtain ⟨a, w, rfl⟩ := List.exists_cons_of_length_pos (l := w) (by omega)
  obtain ⟨b, gap, rfl⟩ := List.exists_cons_of_ne_nil gapNonempty
  have front : (blanks ++ (a :: w) ++ (b :: gap) ++ c :: rest).takeWhile isBlank = blanks := by
    simp only [List.append_assoc]
    rw [List.takeWhile_append_of_pos blank, List.cons_append,
      List.takeWhile_cons_of_neg (by simp [solidWord]), List.append_nil]
  have behind : (blanks ++ (a :: w) ++ (b :: gap) ++ c :: rest).drop blanks.length =
      (a :: w) ++ (b :: gap) ++ c :: rest := by
    simp only [List.append_assoc]
    exact List.drop_left
  have noBreak : '\n' ∉ (a :: w) ++ (b :: gap) := by
    rw [List.mem_append]
    rintro (newline | newline)
    · have := solidWord _ newline
      cases this
    · exact single newline
  obtain ⟨tail, line⟩ := firstLine_append_cons noBreak solid rest
  have found : words (firstLine ((a :: w) ++ (b :: gap) ++ c :: rest)) =
      (a :: w) :: words (c :: tail) := by
    rw [line, List.append_assoc, @List.cons_append Char b gap (c :: tail),
      words_append_blank solidWord (List.cons_ne_nil a w) (gapBlank b List.mem_cons_self),
      words_append_blanks fun d hd => gapBlank d (List.mem_cons_of_mem b hd)]
  have word : ((a :: w) ++ (b :: gap) ++ c :: rest).take 9 = a :: w := by
    rw [List.append_assoc]
    exact List.take_left' length
  obtain ⟨d, ds, others⟩ := List.exists_cons_of_ne_nil (words_ne_nil solid tail)
  have command : (sameWord (a :: w) command && decide ((a :: w).length = 9)) = true := by
    rw [same, length]
    rfl
  unfold delimiterLine?
  simp only [front, behind, found, others, word]
  exact congrArg Option.isSome (if_pos command)

/-- The scanner finds a `DELIMITER` line where one stands. -/
theorem isSome_delimiterLine? : (delimiterLine? cs).isSome ↔ DelimiterLine cs :=
  ⟨delimiterLine_of_isSome, DelimiterLine.isSome⟩

theorem DelimiterLine.exists_solid (h : DelimiterLine cs) : ∃ c ∈ cs, isBlank c = false := by
  obtain ⟨-, -, -, -, -, solid⟩ := h
  exact ⟨_, List.mem_append_right _ List.mem_cons_self, solid⟩

/-- What begins with a character that is no blank and not in the command opens no `DELIMITER`
line. -/
theorem not_delimiterLine_cons {k : Char} (solid : isBlank k = false) (other : k.toUpper ∉ command)
    (cs : List Char) : ¬ DelimiterLine (k :: cs) := by
  intro h
  generalize ht : k :: cs = text at h
  obtain ⟨blank, same, -, -, -, -⟩ := h
  rename_i blanks w gap c rest
  cases blanks with
  | nil =>
    obtain ⟨a, w, rfl⟩ := List.exists_cons_of_length_pos (l := w)
      (by rw [length_of_sameWord same]; decide)
    cases ht
    exact ne_of_sameWord same other List.mem_cons_self
  | cons b blanks =>
    cases ht
    rw [blank k List.mem_cons_self] at solid
    cases solid

/-- What begins with a dash opens no `DELIMITER` line. -/
theorem not_delimiterLine_dash (cs : List Char) : ¬ DelimiterLine ('-' :: cs) :=
  not_delimiterLine_cons rfl (by decide) cs

/-- The text ends with no blank other than a line break. -/
def Quiet (front : List Char) : Prop := ∀ c, front.getLast? = some c → isBlank c → c = '\n'

theorem quiet_of_trimmed (h : Trimmed cs) : Quiet cs := by
  intro c last blank
  rw [h c last] at blank
  cases blank

theorem quiet_newline (cs : List Char) : Quiet (cs ++ ['\n']) := by
  intro c last _
  rw [List.getLast?_concat] at last
  exact (Option.some.inj last).symm

theorem Quiet.append {front behind : List Char} (h : Quiet front) (h' : Quiet behind) :
    Quiet (front ++ behind) := by
  intro c last
  rw [List.getLast?_append] at last
  by_cases nothing : behind = []
  · rw [nothing] at last
    exact h c last
  · obtain ⟨d, hd⟩ := Option.ne_none_iff_exists'.1 (mt List.getLast?_eq_none_iff.1 nothing)
    rw [hd] at last
    exact h' c (hd.trans last)

/-- A dash that follows no blank in its line has no part in a `DELIMITER` line. -/
theorem DelimiterLine.replace_dash {front : List Char} (h : DelimiterLine (front ++ '-' :: cs))
    (quiet : Quiet front) (x : List Char) : DelimiterLine (front ++ x) := by
  generalize ht : front ++ '-' :: cs = text at h
  obtain ⟨blank, same, gapNonempty, gapBlank, single, solid⟩ := h
  rename_i blanks w gap c rest
  have notWhole : front ≠ blanks ++ w ++ gap := by
    rintro rfl
    obtain ⟨gap, last, rfl⟩ := (List.eq_nil_or_concat gap).resolve_left gapNonempty
    have newline := quiet last (by simp) (gapBlank last (by simp))
    exact single (by simp [newline])
  rcases List.append_eq_append_iff.1 ht with ⟨more, whole, tail⟩ | ⟨more, whole, tail⟩
  · -- The dash would belong to the blanks or to the command.
    cases more with
    | nil =>
      rw [List.append_nil] at whole
      exact absurd whole.symm notWhole
    | cons d more =>
      cases tail
      have member : '-' ∈ blanks ++ w ++ gap := by
        rw [whole]
        simp
      rcases List.mem_append.1 member with member | member
      · rcases List.mem_append.1 member with member | member
        · have := blank _ member
          cases this
        · exact absurd member (ne_of_sameWord same (by decide))
      · have := gapBlank _ member
        cases this
  · cases more with
    | nil =>
      rw [List.append_nil] at whole
      exact absurd whole notWhole
    | cons d more =>
      cases tail
      rw [whole, List.append_assoc, List.cons_append]
      exact .intro blank same gapNonempty gapBlank single solid

/-- A `DELIMITER` line says the same whatever the text goes on with. It is passed over with the line
break behind it, or, if a carriage return stands there, without. -/
theorem delimiterLine?_append {d : List Char} {n : Nat} (single : '\n' ∉ line)
    (h : delimiterLine? (line ++ ['\n']) = some (d, n)) (cs : List Char) :
    delimiterLine? (line ++ '\n' :: cs) = some (d, n) ∧ (n = line.length + 1 ∨ n = line.length) := by
  have inside : line.drop (line.takeWhile isBlank).length ≠ [] := by
    intro nothing
    have whole : line.takeWhile isBlank = line :=
      (List.takeWhile_prefix isBlank).eq_of_length_le (List.drop_eq_nil_iff.1 nothing)
    obtain ⟨c, hc, solid⟩ := (isSome_delimiterLine?.1 (Option.isSome_of_eq_some h)).exists_solid
    have blank : isBlank c := by
      rcases List.mem_append.1 hc with hc | hc
      · rw [← whole] at hc
        exact List.all_eq_true.1 List.all_takeWhile c hc
      · rw [List.mem_singleton.1 hc]
        decide
    rw [solid] at blank
    cases blank
  have front (cs : List Char) : (line ++ cs).takeWhile isBlank = line.takeWhile isBlank :=
    takeWhile_append_of_drop inside
  have behind (cs : List Char) : (line ++ cs).drop (line.takeWhile isBlank).length =
      line.drop (line.takeWhile isBlank).length ++ cs := drop_takeWhile_append line cs
  have rest : '\n' ∉ line.drop (line.takeWhile isBlank).length :=
    fun newline => single (List.mem_of_mem_drop newline)
  have lengths := congrArg List.length (List.take_append_drop (line.takeWhile isBlank).length line)
  unfold delimiterLine? at h ⊢
  simp only [front, behind, firstLine_append_newline rest] at h ⊢
  generalize line.drop (line.takeWhile isBlank).length = core at h rest lengths ⊢
  generalize hl : (if core.getLast? == some '\r' then core.dropLast else core) = first at h ⊢
  have size : first.length ≤ core.length ∧ core.length ≤ first.length + 1 := by
    rw [← hl]
    split
    · simp only [List.length_dropLast]
      omega
    · omega
  split at h
  · rename_i w e ws found
    split at h
    · rename_i same
      simp only [Bool.and_eq_true, decide_eq_true_eq] at same
      have inCore : w.length ≤ core.length := by
        obtain ⟨before, afterWord, spelled, -⟩ := words_eq_cons found
        have sizes := congrArg List.length spelled
        simp only [List.length_append] at sizes
        omega
      have word (cs : List Char) : (core ++ cs).take 9 = core.take 9 :=
        List.take_append_of_le_length (by omega)
      rw [word] at same
      cases h
      rw [word, if_pos (by rw [same.1, same.2]; rfl)]
      refine ⟨rfl, ?_⟩
      have front := length_takeWhile_le isBlank line
      simp only [List.length_append, List.length_take] at lengths
      omega
    · cases h
  · cases h

end Place

end BoundSql
