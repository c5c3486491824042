import BoundSql.Token.Scan

/-!
# Classes of characters and each other

Blanks and digits are few, so that what holds of each of them can be computed; the letters that
begin names are none of them.
-/

namespace BoundSql.Text

open Token

/-- What holds of each character of a text is computed from the text, not from all characters. -/
instance (priority := high) decidableForallMem (p : Char → Prop) [DecidablePred p]
    (cs : List Char) : Decidable (∀ c ∈ cs, p c) :=
  List.decidableBAll p cs

/-- The code points of the blanks. -/
def blankCodes : List Nat :=
  [ 0x9, 0xa, 0xb, 0xc, 0xd, 0x20, 0x85, 0xa0, 0x1680, 0x2000, 0x2001, 0x2002, 0x2003, 0x2004,
    0x2005, 0x2006, 0x2007, 0x2008, 0x2009, 0x200a, 0x2028, 0x2029, 0x202f, 0x205f, 0x3000 ]

theorem toNat_mem_blankCodes {c : Char} (h : isBlank c) : c.toNat ∈ blankCodes := by
  obtain ⟨r, hr, hlow, hhigh⟩ := inRanges_iff.1 h
  simp only [blankRanges, List.mem_cons, List.not_mem_nil, or_false] at hr
  simp only [blankCodes, List.mem_cons, List.not_mem_nil, or_false]
  rcases hr with rfl | rfl | rfl | rfl | rfl | rfl | rfl | rfl | rfl | rfl <;>
    simp only at hlow hhigh <;> omega

/-- A class that has none of the blanks has no blank. -/
theorem isBlank_of {p : Char → Bool} (hp : ∀ n ∈ blankCodes, p (Char.ofNat n) = false) {c : Char}
    (hc : p c) : isBlank c = false := by
  rw [Bool.eq_false_iff]
  intro hblank
  have := hp _ (toNat_mem_blankCodes hblank)
  rw [Char.ofNat_toNat, hc] at this
  cases this

/-- A class that has none of the ten digits has no digit. -/
theorem isDigit_of {p : Char → Bool} (hp : ∀ n < 10, p (Char.ofNat (48 + n)) = false) {c : Char}
    (hc : p c) : c.isDigit = false := by
  rw [Bool.eq_false_iff]
  intro hdigit
  have hrange : 48 ≤ c.toNat ∧ c.toNat ≤ 57 := by
    simp only [Char.isDigit, Bool.and_eq_true, decide_eq_true_eq] at hdigit
    exact hdigit
  have := hp (c.toNat - 48) (by omega)
  rw [show 48 + (c.toNat - 48) = c.toNat by omega, Char.ofNat_toNat, hc] at this
  cases this

/-- A character of a class is none outside it. -/
theorem ne_of_class {p : Char → Bool} {c k : Char} (hc : p c) (hk : p k = false) : c ≠ k := by
  rintro rfl
  rw [hc] at hk
  cases hk

/-- A character of a class without the marks of comments opens none. -/
theorem commentLead_of_class {p : Char → Bool} (minus : p '-' = false) (slash : p '/' = false)
    (number : p '#' = false) {hash : Bool} {c : Char} {cs : List Char} (hc : p c) :
    commentLead hash (c :: cs) = .none := by
  refine commentLead.eq_4 _ _ ?_ ?_ ?_ <;> intro tail h <;> injection h with h
  · exact ne_of_class hc minus h
  · exact ne_of_class hc slash h
  · exact ne_of_class hc number h

/-- A letter or underscore: what a name begins with. -/
def isNameStart (c : Char) : Bool := isAlphabetic c || c == '_'

theorem startsName_cons (c : Char) (cs : List Char) : startsName (c :: cs) = isNameStart c := rfl

theorem isBlank_of_isAlphanumeric {c : Char} (hc : isAlphanumeric c) : isBlank c = false :=
  isBlank_of (by decide +kernel) hc

theorem isBlank_of_isNameStart {c : Char} (hc : isNameStart c) : isBlank c = false := by
  rcases Bool.or_eq_true_iff.1 hc with letter | underscore
  · exact isBlank_of_isAlphanumeric (Bool.or_eq_true_iff.2 (.inl letter))
  · rw [beq_iff_eq.1 underscore]
    rfl

theorem isDigit_of_isNameStart {c : Char} (hc : isNameStart c) : c.isDigit = false :=
  isDigit_of (by decide) hc

theorem isBlank_of_isDigit {c : Char} (hc : c.isDigit) : isBlank c = false :=
  isBlank_of (by decide) hc

end BoundSql.Text
