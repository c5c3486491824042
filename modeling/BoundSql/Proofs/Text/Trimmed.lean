import BoundSql.Text.Basic

/-!
# Blanks at the end of a text

A text is trimmed if it does not end with a blank. `trimEnd` makes a text trimmed by taking off a
row of blanks, and changes no trimmed text.
-/

namespace BoundSql.Text

/-- Text that consists of blanks. -/
def AllBlank (cs : List Char) : Prop := ∀ c ∈ cs, isBlank c

/-- No character of the class stands last in the text. -/
def NotLast (p : Char → Bool) (cs : List Char) : Prop := ∀ c, cs.getLast? = some c → p c = false

/-- The text does not end with a blank. -/
abbrev Trimmed (cs : List Char) : Prop := NotLast isBlank cs

section Last

variable {p q : Char → Bool} {a b cs : List Char}

theorem notLast_nil : NotLast p [] := by simp [NotLast]

/-- What has no such character at all does not end with one. -/
theorem notLast_of_forall (h : ∀ c ∈ cs, p c = false) : NotLast p cs :=
  fun c hc => h c (List.mem_of_getLast? hc)

theorem notLast_concat {c : Char} (hc : p c = false) (cs : List Char) : NotLast p (cs ++ [c]) := by
  simpa [NotLast] using hc

theorem notLast_of_getLast? {k : Char} (hk : p k = false) (h : cs.getLast? = some k) :
    NotLast p cs := by
  intro c hc
  rw [h] at hc
  cases hc
  exact hk

theorem NotLast.mono (h : NotLast q cs) (fewer : ∀ c, p c → q c) : NotLast p cs := by
  intro c hc
  rw [Bool.eq_false_iff]
  intro inside
  have outside := h c hc
  rw [fewer c inside] at outside
  cases outside

/-- What stands in front of a text that is not empty does not count. -/
theorem NotLast.append_of_ne_nil (h : NotLast p b) (hb : b ≠ []) (a : List Char) :
    NotLast p (a ++ b) := by
  intro c hc
  obtain ⟨front, last, rfl⟩ := (List.eq_nil_or_concat b).resolve_left hb
  exact h c (by simpa using hc)

theorem NotLast.append (ha : NotLast p a) (hb : NotLast p b) : NotLast p (a ++ b) := by
  by_cases empty : b = []
  · rw [empty, List.append_nil]
    exact ha
  · exact hb.append_of_ne_nil empty a

/-- What ends a text ends its last part, if that is not empty. -/
theorem NotLast.right (h : NotLast p (a ++ b)) : NotLast p b := by
  intro c hc
  refine h c ?_
  rw [List.getLast?_append, hc, Option.some_or]

theorem NotLast.cons {c : Char} (hc : p c = false) (h : NotLast p cs) : NotLast p (c :: cs) :=
  NotLast.append (notLast_concat hc []) h

end Last

variable {a b cs : List Char}

theorem trimEnd_of_allBlank (h : AllBlank b) (a : List Char) : trimEnd (a ++ b) = trimEnd a := by
  rw [trimEnd, trimEnd, List.reverse_append,
    List.dropWhile_append_of_pos fun c hc => h c (List.mem_reverse.1 hc)]

/-- What is taken off is a row of blanks. -/
theorem exists_blanks (cs : List Char) : ∃ b, AllBlank b ∧ cs = trimEnd cs ++ b := by
  refine ⟨(cs.reverse.takeWhile isBlank).reverse, fun c hc => ?_, ?_⟩
  · exact List.all_eq_true.1 List.all_takeWhile c (List.mem_reverse.1 hc)
  · rw [trimEnd, ← List.reverse_append, List.takeWhile_append_dropWhile, List.reverse_reverse]

theorem trimmed_trimEnd (cs : List Char) : Trimmed (trimEnd cs) := by
  intro c hc
  rw [trimEnd, List.getLast?_reverse] at hc
  have := List.head?_dropWhile_not isBlank cs.reverse
  rw [hc] at this
  simpa using this

theorem trimEnd_of_trimmed (h : Trimmed cs) : trimEnd cs = cs := by
  obtain ⟨b, hb, spelled⟩ := exists_blanks cs
  rcases List.eq_nil_or_concat b with rfl | ⟨front, c, rfl⟩
  · rw [List.append_nil] at spelled
    exact spelled.symm
  · rw [List.concat_eq_append] at hb spelled
    have last : cs.getLast? = some c := by
      rw [spelled, ← List.append_assoc]
      exact List.getLast?_concat
    have blank : isBlank c := hb c (by simp)
    rw [h c last] at blank
    cases blank

theorem trimEnd_trimEnd (cs : List Char) : trimEnd (trimEnd cs) = trimEnd cs :=
  trimEnd_of_trimmed (trimmed_trimEnd cs)

/-- Behind a trimmed text, only what follows is cut. -/
theorem trimEnd_append (ha : Trimmed a) (b : List Char) : trimEnd (a ++ b) = a ++ trimEnd b := by
  obtain ⟨blanks, hblanks, spelled⟩ := exists_blanks b
  have cut : trimEnd (a ++ b) = trimEnd (a ++ trimEnd b) := by
    have whole : a ++ b = a ++ trimEnd b ++ blanks := by rw [List.append_assoc, ← spelled]
    rw [whole, trimEnd_of_allBlank hblanks]
  rw [cut, trimEnd_of_trimmed (ha.append (trimmed_trimEnd b))]

end BoundSql.Text
