import BoundSql.Proofs.RoundTrip.Operand

/-!
# Integers read back

The sign of a negative integer is written as a minus sign, and is read as a negation.
-/

namespace BoundSql

open Text Token Parse Grammar Phrase Render

/-- What the digits of a negative integer mean. Those of the least one fit no integer. -/
def Literal.magnitude (n : Int64) : Literal :=
  if n = Int64.minValue then .float ⟨0x43E0000000000000⟩ else .integer (-n)

/-- The expression as which an integer is read back. -/
def Expr.reread : Expr → Expr
  | .literal (.integer n) =>
    if 0 ≤ n.toInt then .literal (.integer n) else .operation .minus [.literal (.magnitude n)]
  | e => e

/-- The expression is an integer. -/
def Expr.IsInteger (e : Expr) : Prop := ∃ n, e = .literal (.integer n)

theorem toList_toString_of_neg {z : Int} (hz : z < 0) :
    (toString z).toList = '-' :: Nat.toDigits 10 z.natAbs := by
  cases z with
  | ofNat n => exact absurd hz (Int.not_lt.2 (Int.natCast_nonneg n))
  | negSucc n =>
    change ("-" ++ Nat.repr (n + 1)).toList = _
    rw [String.toList_append, Nat.toList_repr]
    rfl

/-- What is not negative is written as digits. -/
theorem toList_toString_of_le {z : Int} (hz : 0 ≤ z) :
    ∃ k, (toString z).toList = Nat.toDigits 10 k := by
  obtain ⟨k, rfl⟩ := Int.eq_ofNat_of_zero_le hz
  exact ⟨k, Nat.toList_repr⟩

/-- The digits of a negative integer mean its magnitude. -/
theorem literal?_magnitude {n : Int64} (hn : n.toInt < 0) :
    literal? (number (Nat.toDigits 10 n.toInt.natAbs) true) = some (.magnitude n) := by
  by_cases hmin : n = Int64.minValue
  · have hnumber : number (Nat.toDigits 10 Int64.minValue.toInt.natAbs) true =
        .float ⟨0x43E0000000000000⟩ := by decide +kernel
    rw [hmin, hnumber]
    rfl
  · have hle := n.le_toInt
    have hne : n.toInt ≠ Int64.minValue.toInt := fun h => hmin (Int64.toInt_inj.1 h)
    have hmin' : Int64.minValue.toInt = -9223372036854775808 := by decide
    have hlt : n.toInt.natAbs < int64Limit := by
      unfold int64Limit
      omega
    have hmeans : Int64.ofInt n.toInt.natAbs = -n := by
      have hnat : (n.toInt.natAbs : Int) = -n.toInt := by omega
      rw [hnat, Int64.ofInt_neg, Int64.ofInt_toInt]
    rw [Literal.magnitude, if_neg hmin, number, readInt64?_toDigits hlt, hmeans]
    rfl

/-- A negative integer is a minus sign and its digits. -/
theorem spells_integer_of_neg {d : Dialect} {n : Int64} (hn : n.toInt < 0) :
    Spells d (toString n.toInt).toList [.sign .minus "-",
      ⟨number (Nat.toDigits 10 n.toInt.natAbs) true, Nat.toDigits 10 n.toInt.natAbs⟩] := by
  have hdigits := isDigits_toDigits n.toInt.natAbs
  have hall : (Nat.toDigits 10 n.toInt.natAbs).all Char.isDigit = true :=
    List.all_eq_true.2 hdigits.2
  have hspells : Spells d (Nat.toDigits 10 n.toInt.natAbs)
      [⟨number (Nat.toDigits 10 n.toInt.natAbs) true, Nat.toDigits 10 n.toInt.natAbs⟩] := by
    have := (IsDecimal.whole hdigits).spells (d := d)
    rwa [hall] at this
  rw [toList_toString_of_neg hn]
  refine hspells.minus fun hhead => ?_
  have hminus := hdigits.2 '-' (List.mem_of_mem_head? hhead)
  cases hminus

theorem whole_integer (d : Dialect) (n : Int64) : Whole d (Literal.sql d (.integer n)) := by
  rcases Int.lt_or_le n.toInt 0 with hn | hn
  · exact (spells_integer_of_neg hn).whole
  · exact (spells_integer hn).whole

section Reading

variable {d : Dialect} {limit levels : Nat} {w : Word} {e : Expr} {n : Int64}

/-- The words of an integer. -/
theorem words_integer (d : Dialect) (n : Int64) : ∃ u us,
    d.words (Literal.sql d (.integer n)).toList = u :: us ∧ u.Begins ∧
      u.kind ≠ .punct .leftParen := by
  rcases Int.lt_or_le n.toInt 0 with hn | hn
  · refine ⟨_, _, (spells_integer_of_neg hn).words_eq, ?_, by simp [Word.sign]⟩
    constructor <;> simp [Word.sign]
  · refine ⟨_, _, (spells_integer hn).words_eq, ?_, by simp⟩
    constructor <;> simp

/-- An integer is read back in front of whatever closes an expression. -/
theorem takes_integer (hlevels : 2 ≤ levels) (hw : w.Closes) :
    Takes (expression limit levels 0) (d.words (Literal.sql d (.integer n)).toList)
      (Expr.literal (.integer n)).reread w := by
  obtain ⟨levels, rfl⟩ : ∃ m, levels = m + 2 := ⟨levels - 2, by omega⟩
  rw [Expr.reread]
  rcases Int.lt_or_le n.toInt 0 with hn | hn
  · have hwords : d.words (Literal.sql d (.integer n)).toList = _ :=
      (spells_integer_of_neg hn).words_eq
    rw [hwords, if_neg (Int.not_le.2 hn)]
    have hdigits : Takes (expression limit (levels + 1) signPower)
        [⟨number (Nat.toDigits 10 n.toInt.natAbs) true, Nat.toDigits 10 n.toInt.natAbs⟩]
        (.literal (.magnitude n)) w :=
      (opens_literal (literal?_magnitude hn) hw.1).takes (hw.stops _)
    exact (opens_minus rfl hdigits).takes (hw.stops _)
  · have hwords : d.words (Literal.sql d (.integer n)).toList = _ := (spells_integer hn).words_eq
    rw [hwords, if_pos hn]
    exact (opens_literal rfl hw.1).takes (hw.stops _)

end Reading

end BoundSql
