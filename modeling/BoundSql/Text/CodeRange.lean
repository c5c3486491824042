/-!
# Ranges of code points

A Unicode property is kept as a list of closed ranges of code points; `inRanges` asks a list
whether it covers a number.
-/

namespace BoundSql.Text

/-- A closed range of code points: its first and its last member. -/
abbrev CodeRange := Nat × Nat

/-- Whether some range of the list holds the code point `n`. -/
def inRanges (ranges : List CodeRange) (n : Nat) : Bool :=
  ranges.any fun r => r.1 ≤ n && n ≤ r.2

theorem inRanges_iff {ranges : List CodeRange} {n : Nat} :
    inRanges ranges n = true ↔ ∃ r ∈ ranges, r.1 ≤ n ∧ n ≤ r.2 := by
  simp [inRanges]

end BoundSql.Text
