import BoundSql.Proofs.Binding.Constant
import BoundSql.Proofs.Number.Shortest
import Mathlib.Data.List.DropRight

/-!
# Texts of doubles

A finite double is written without a point exactly if it is an integer, and the digits of an integer
are a number of 64 bits exactly if the integer is one (`Double.toText_of_isFinite`), although they
are not always the digits of the integer itself.
-/

namespace BoundSql

open Text Token

section Digits

variable {cs : List Char}

theorem digitsValue_append_zeros (cs : List Char) (n : Nat) :
    digitsValue (cs ++ List.replicate n '0') = digitsValue cs * 10 ^ n := by
  change Nat.ofDigitChars 10 _ 0 = Nat.ofDigitChars 10 cs 0 * 10 ^ n
  rw [Nat.ofDigitChars_append, Nat.ofDigitChars_replicate_zero, Nat.mul_comm]

theorem digitsValue_zeros_append (n : Nat) (cs : List Char) :
    digitsValue (List.replicate n '0' ++ cs) = digitsValue cs := by
  change Nat.ofDigitChars 10 _ 0 = Nat.ofDigitChars 10 cs 0
  rw [Nat.ofDigitChars_append, Nat.ofDigitChars_replicate_zero, Nat.mul_zero]

/-- If nothing is left of a text without the zeros at its end, it consists of zeros. -/
theorem eq_zeros_of_trimmed (h : (cs.reverse.dropWhile (· == '0')).reverse = []) :
    cs = List.replicate cs.length '0' := by
  refine List.eq_replicate_of_mem fun c hc => ?_
  have trimmed : cs.rdropWhile (· == '0') = [] := h
  exact beq_iff_eq.1 (List.rdropWhile_eq_nil_iff.1 trimmed c hc)

/-- What digits are read as. -/
theorem readInt64?_digits (h : IsDigits cs) : readInt64? cs =
    if digitsValue cs < int64Limit then some (Int64.ofInt (digitsValue cs)) else none := by
  rw [readInt64?, readInt?_digits h, Option.bind_some]
  by_cases small : digitsValue cs < int64Limit
  · rw [if_pos small, if_pos (fitsSigned_of_lt small)]
  · have large : fitsSigned 64 (digitsValue cs) = false := by
      have limit : Nat.pow 2 (64 - 1) = int64Limit := by decide
      simp only [fitsSigned, limit, Bool.and_eq_false_iff, decide_eq_false_iff_not]
      omega
    rw [if_neg small, if_neg (by simp [large])]

end Digits

namespace Double

/-- A decimal is set out without a point if it has no fraction but zeros, and only then if it is
given with one. -/
theorem positional_cases (n : Nat) (e : Int) :
    IsDigits (positional n e).toList ∧
        (0 ≤ e ∧ digitsValue (positional n e).toList = n * 10 ^ e.toNat ∨
          e < 0 ∧ n = digitsValue (positional n e).toList * 10 ^ (-e).toNat) ∨
      e < 0 ∧ (positional n e).toList.all Char.isDigit = false := by
  have digits {cs : List Char} (h : IsDecimal cs) (all : cs.all Char.isDigit = true) :
      IsDigits cs := by
    refine ⟨fun empty => ?_, List.all_eq_true.1 all⟩
    obtain ⟨c, head, -⟩ := h.head?
    rw [empty] at head
    cases head
  have decimal := isDecimal_positional n e
  revert decimal
  unfold positional
  extract_lets text places padded whole decimals
  intro decimal
  by_cases he : 0 ≤ e
  · rw [if_pos he, String.toList_ofList]
    have value := digitsValue_append_zeros text e.toNat
    rw [digitsValue_toDigits] at value
    exact .inl ⟨(isDigits_toDigits n).append fun c => isDigit_of_mem_replicate, .inl ⟨he, value⟩⟩
  · rw [if_neg he] at decimal ⊢
    by_cases none : decimals = []
    · rw [if_pos (List.isEmpty_iff.2 none)] at decimal ⊢
      rw [String.toList_ofList] at decimal ⊢
      -- What stands behind the place of the point are zeros.
      have zeros := eq_zeros_of_trimmed none
      have count : (padded.drop whole).length = places := by
        simp only [padded, whole, List.length_drop, List.length_append, List.length_replicate]
        omega
      have value : digitsValue padded = n :=
        (digitsValue_zeros_append _ _).trans (digitsValue_toDigits n)
      rw [← List.take_append_drop whole padded, zeros, count, digitsValue_append_zeros] at value
      have all : ∀ c ∈ padded.take whole, c.isDigit := by
        intro c hc
        rcases List.mem_append.1 (List.mem_of_mem_take hc) with hc | hc
        · exact isDigit_of_mem_replicate hc
        · exact (isDigits_toDigits n).2 c hc
      exact .inl ⟨digits decimal (List.all_eq_true.2 all), .inr ⟨Int.not_le.1 he, value.symm⟩⟩
    · rw [if_neg (by simpa using none), String.toList_ofList]
      exact .inr ⟨Int.not_le.1 he, by simp⟩

variable {d : Double} {n : Nat}

/-! ## The limit of 64 bits -/

/-- The limit, counted like the units of doubles. -/
theorem limit_eq : ∃ k, k = 1137 ∧ int64Limit * unitDenominator = 2 ^ k := by
  obtain ⟨k, exponent, unit⟩ := unitDenominator_eq
  have limit : int64Limit = 2 ^ 63 := by decide
  exact ⟨63 + k, by omega, by rw [unit, limit, ← Nat.pow_add]⟩

/-- The last place of a significand is a divisor of the limit, unless it is worth more than it. -/
theorem limit_cases (d : Double) : (∃ q, int64Limit * unitDenominator = q * d.step) ∨
    2 * (int64Limit * unitDenominator) ≤ d.step := by
  obtain ⟨k, exponent, limit⟩ := limit_eq
  rw [limit, step, Nat.pow_eq]
  by_cases small : d.scale ≤ k
  · refine .inl ⟨2 ^ (k - d.scale), ?_⟩
    rw [← Nat.pow_add, Nat.sub_add_cancel small]
  · rw [← Nat.pow_succ']
    exact .inr (Nat.pow_le_pow_right (by decide) (by omega))

/-- What is found for a double below the limit is below it, too. -/
theorem lt_limit_of_within (hd : 0 < d.significand) (h : d.Within n)
    (small : d.units < int64Limit * unitDenominator) : n < int64Limit := by
  have high := h.2
  rw [d.around_rounding.high, rounding_value, rounding_unit, units] at high
  change _ ≤ 4 * (d.significand * d.step) + 2 * d.step at high
  change d.significand * d.step < _ at small
  have positive := unitDenominator_pos
  rcases d.limit_cases with ⟨q, limit⟩ | large
  · rw [limit] at small
    have lt := Nat.lt_of_mul_lt_mul_right small
    have step := d.step_pos
    have next : (d.significand + 1) * d.step ≤ q * d.step := Nat.mul_le_mul_right _ lt
    rw [← limit, Nat.add_mul, Nat.one_mul] at next
    refine Nat.lt_of_mul_lt_mul_right (a := 4 * unitDenominator) ?_
    linarith
  · have le : d.step ≤ d.significand * d.step := Nat.le_mul_of_pos_left _ hd
    omega

/-- What is found for a double above the limit is not below it. -/
theorem limit_le_of_within (h : d.Within n)
    (large : int64Limit * unitDenominator < d.units) : int64Limit ≤ n := by
  have low := d.around_rounding.value_le.trans (Nat.add_le_add_right h.1 _)
  rw [rounding_value, rounding_unit, units] at low
  change 4 * (d.significand * d.step) ≤ _ at low
  change _ < d.significand * d.step at large
  have positive := unitDenominator_pos
  refine Nat.le_of_mul_le_mul_right (c := 4 * unitDenominator) ?_ (by omega)
  rcases d.limit_cases with ⟨q, limit⟩ | step
  · rw [limit] at large
    have lt := Nat.lt_of_mul_lt_mul_right large
    have next : (q + 1) * d.step ≤ d.significand * d.step := Nat.mul_le_mul_right _ lt
    rw [Nat.add_mul, Nat.one_mul, ← limit] at next
    linarith
  · have one : 0 < d.significand := by
      refine Nat.pos_of_ne_zero fun zero => ?_
      rw [zero, Nat.zero_mul] at large
      exact Nat.not_lt_zero _ large
    have le : d.step ≤ d.significand * d.step := Nat.le_mul_of_pos_left _ one
    linarith

/-- There is one double at the limit, as far as its text goes. -/
theorem rounding_of_units_eq (h : d.units = int64Limit * unitDenominator) :
    d.rounding = (⟨0x43E0000000000000⟩ : Double).rounding := by
  obtain ⟨k, exponent, limit⟩ := limit_eq
  have small : d.significand < 2 ^ 53 := d.significand_lt
  rw [limit, units, Nat.pow_eq] at h
  have upper : k < 53 + d.scale := by
    refine (Nat.pow_lt_pow_iff_right (a := 2) (by decide)).1 ?_
    rw [← h, Nat.pow_add]
    exact Nat.mul_lt_mul_of_pos_right small (Nat.two_pow_pos _)
  have large : 2 ^ 52 ≤ d.significand := d.scale_eq_zero_or.resolve_left (by omega)
  have lower : 52 + d.scale ≤ k := by
    refine (Nat.pow_le_pow_iff_right (a := 2) (by decide)).1 ?_
    rw [← h, Nat.pow_add]
    exact Nat.mul_le_mul_right _ large
  have scale : d.scale = 1085 := by omega
  have significand : d.significand = 2 ^ 52 := by
    have split : k = 52 + d.scale := by omega
    rw [split, Nat.pow_add] at h
    exact Nat.eq_of_mul_eq_mul_right (Nat.two_pow_pos _) h
  have scale' : (⟨0x43E0000000000000⟩ : Double).scale = 1085 := by decide
  have significand' : (⟨0x43E0000000000000⟩ : Double).significand = 2 ^ 52 := by decide
  unfold rounding
  rw [scale, significand, scale', significand']

/-! ## The text -/

/-- The digits of the shortest decimal of an integer lie in the interval of the double; that of any
other double has a point. -/
theorem positional_shortest (hd : 0 < d.significand) {e : Int}
    (h : d.rounding.shortest = (n, e)) :
    ((positional n e).toList.all Char.isDigit ↔ d.IsWhole) ∧
      (d.IsWhole → d.Within (digitsValue (positional n e).toList)) := by
  obtain ⟨digits, exponent, shortest, found, whole⟩ := exists_shortest hd
  rw [h] at shortest
  cases shortest
  rcases positional_cases n e with ⟨text, value⟩ | ⟨fraction, point⟩
  · have within : d.Within (digitsValue (positional n e).toList) := by
      rcases value with ⟨he, value⟩ | ⟨he, value⟩
      · rw [value]
        exact within_of_onGrid he found
      · refine within_of_onGrid_neg he ?_
        rwa [← value]
    have all : (positional n e).toList.all Char.isDigit = true := List.all_eq_true.2 text.2
    exact ⟨iff_of_true all (isWhole_of_within within), fun _ => within⟩
  · have broken : ¬ d.IsWhole := fun hwhole => absurd (whole hwhole) (Int.not_le.2 fraction)
    exact ⟨iff_of_false (by simp [point]) broken, fun hwhole => absurd hwhole broken⟩

/-- A finite double without a sign is written as a decimal, without a point if the double is an
integer. The digits of an integer fit in 64 bits if the integer does. -/
theorem toText_of_isFinite (finite : d.isFinite) (sign : d.isNegative = false) :
    IsDecimal d.toText.toList ∧ (d.toText.toList.all Char.isDigit ↔ d.IsWhole) ∧
      (d.IsWhole → (digitsValue d.toText.toList < int64Limit ↔
        d.units < int64Limit * unitDenominator)) := by
  have number : d.isNaN = false := by
    unfold isFinite at finite
    unfold isNaN
    simp_all
  have positive : 0 < int64Limit * unitDenominator :=
    Nat.mul_pos (by decide) unitDenominator_pos
  by_cases zero : d.significand = 0
  · have text : d.toText = "0" := by simp [toText, number, finite, sign, zero]
    have units : d.units = 0 := by rw [units, zero, Nat.zero_mul]
    have whole : d.IsWhole := by
      rw [IsWhole, units]
      exact Nat.dvd_zero _
    have small : digitsValue "0".toList < int64Limit := by decide
    rw [text, units]
    exact ⟨.whole ⟨by decide, List.all_eq_true.1 (by decide)⟩, iff_of_true (by decide) whole,
      fun _ => iff_of_true small positive⟩
  · have nonzero : 0 < d.significand := Nat.pos_of_ne_zero zero
    obtain ⟨n, e, shortest, -, -⟩ := exists_shortest nonzero
    have text : d.toText = positional n e := by
      simp [toText, number, finite, sign, zero, shortest]
    obtain ⟨all, within⟩ := positional_shortest nonzero shortest
    rw [text]
    refine ⟨isDecimal_positional n e, all, fun whole => ?_⟩
    rcases Nat.lt_trichotomy d.units (int64Limit * unitDenominator) with below | at_ | above
    · exact iff_of_true (lt_limit_of_within nonzero (within whole) below) below
    · have least : (⟨0x43E0000000000000⟩ : Double).rounding.shortest = (9223372036854776, 3) := by
        decide +kernel
      rw [rounding_of_units_eq at_, least] at shortest
      cases shortest
      have large : ¬ digitsValue (positional 9223372036854776 3).toList < int64Limit := by
        decide +kernel
      exact iff_of_false large (by omega)
    · refine iff_of_false ?_ (by omega)
      exact Nat.not_lt.2 (limit_le_of_within (within whole) above)

end Double

end BoundSql
