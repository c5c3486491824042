import BoundSql.Number.Shortest
import Mathlib.Tactic.Linarith
import Mathlib.Tactic.Ring

/-!
# Shortest decimals

The decimal that a finite double is written with rounds to the double: it lies in the interval of
the numbers that do, and seventeen digits suffice to find it (`Double.exists_shortest`). A decimal
in this interval that is an integer belongs to a double that is one, too
(`Double.isWhole_of_within`).
-/

namespace BoundSql.Double

/-- The double is an integer. -/
def IsWhole (d : Double) : Prop := unitDenominator ∣ d.units

theorem fractionLimit_pos : 0 < fractionLimit := Nat.pow_pos (by decide)

/-- The power is named so that it is not computed. -/
theorem unitDenominator_eq : ∃ k, k = 1074 ∧ unitDenominator = 2 ^ k := by
  have power (k : Nat) : Nat.pow 2 k = 2 ^ k := rfl
  exact ⟨1074, rfl, by unfold unitDenominator; rw [power]⟩

theorem unitDenominator_pos : 0 < unitDenominator := by
  obtain ⟨k, -, unit⟩ := unitDenominator_eq
  rw [unit]
  exact Nat.two_pow_pos k

theorem significand_lt (d : Double) : d.significand < 2 * fractionLimit := by
  have fraction : d.fraction < fractionLimit := Nat.mod_lt _ fractionLimit_pos
  unfold significand
  split <;> omega

/-- The leading bit of a significand is missing only next to zero. -/
theorem scale_eq_zero_or (d : Double) : d.scale = 0 ∨ fractionLimit ≤ d.significand := by
  unfold scale significand
  split
  · exact .inl (by omega)
  · exact .inr (Nat.le_add_right _ _)

namespace Rounding

variable {r : Rounding} {m step grid n : Nat}

/-- The interval is that of a double whose significand is `m` and whose last place is worth
`4 * step`: half a place on either side of it, and below a power of two only a quarter. -/
structure Around (r : Rounding) (m step : Nat) : Prop where
  value : r.value = 4 * m * step
  high : r.high = r.value + 2 * step
  low : r.low = r.value - 2 * step ∨ m = fractionLimit ∧ r.low = r.value - step

theorem Around.times (h : r.Around m step) (n : Nat) : (r.times n).Around m (step * n) where
  value := by
    rw [Rounding.times, h.value]
    ring
  high := by
    simp only [Rounding.times]
    rw [h.high]
    ring
  low := by
    simp only [Rounding.times]
    refine h.low.imp (fun low => ?_) fun low => ⟨low.1, ?_⟩
    · rw [low, Nat.sub_mul, Nat.mul_assoc]
    · rw [low.2, Nat.sub_mul]

/-- Half a place below, at most. -/
theorem Around.value_le (h : r.Around m step) : r.value ≤ r.low + 2 * step := by
  rcases h.low with low | ⟨-, low⟩ <;> omega

theorem holds_of_lt (low : r.low < n) (high : n < r.high) : r.holds n = true := by
  unfold holds
  split <;> simp <;> omega

theorem within_of_holds (h : r.holds n = true) : r.low ≤ n ∧ n ≤ r.high := by
  unfold holds at h
  split at h <;> simp at h <;> omega

/-- What is found lies in the interval. -/
theorem holds_of_nearest? (h : r.nearest? grid = some n) : r.holds (n * grid) = true := by
  unfold nearest? at h
  extract_lets lower low high at h
  split at h
  · rename_i both
    rw [Bool.and_eq_true] at both
    rw [← Option.some.inj h]
    split
    · exact both.1
    · exact both.2
  · split at h
    · rename_i upper
      rw [← Option.some.inj h]
      exact upper
    · split at h
      · rename_i under
        rw [← Option.some.inj h]
        exact under
      · cases h

/-- On a grid of at most the seventeenth place of the value, one of the two neighbours of the value
lies in the interval. -/
theorem Around.exists_nearest? (h : r.Around m step) (hm : m < 2 * fractionLimit)
    (hgrid : 0 < grid) (fine : 10 ^ 16 * grid ≤ r.value) : ∃ n, r.nearest? grid = some n := by
  have split := Nat.div_add_mod r.value grid
  have rest := Nat.mod_lt r.value hgrid
  have upper : (r.value / grid + 1) * grid = grid * (r.value / grid) + grid := by ring
  have value := h.value
  have high := h.high
  rw [Nat.mul_assoc] at value
  have bound : m * step ≤ (2 * fractionLimit - 1) * step := Nat.mul_le_mul_right step (by omega)
  have limit : fractionLimit = 4503599627370496 := rfl
  rw [limit] at bound
  by_cases near : 2 * (r.value % grid) < grid
  · have found : r.holds (r.value / grid * grid) = true := by
      rw [Nat.mul_comm]
      refine holds_of_lt ?_ (by omega)
      -- Next to a power of two the interval is narrower, but the grid is finer there, too.
      rcases h.low with low | ⟨hm, low⟩
      · omega
      · rw [hm, limit] at value
        omega
    unfold nearest?
    simp only [found, Bool.true_and, if_true]
    split
    · exact ⟨_, rfl⟩
    · exact ⟨_, rfl⟩
  · have found : r.holds ((r.value / grid + 1) * grid) = true := by
      rw [upper]
      refine holds_of_lt ?_ (by omega)
      rcases h.low with low | ⟨-, low⟩ <;> omega
    unfold nearest?
    simp only [found, Bool.and_true, if_true]
    split
    · exact ⟨_, rfl⟩
    · exact ⟨_, rfl⟩

/-- A value on the grid is its own neighbour. -/
theorem Around.exists_nearest?_of_dvd (h : r.Around m step) (hm : 0 < m) (hstep : 0 < step)
    (dvd : grid ∣ r.value) : ∃ n, r.nearest? grid = some n := by
  have value : 0 < r.value := by
    rw [h.value]
    exact Nat.mul_pos (Nat.mul_pos (by decide) hm) hstep
  have high := h.high
  have found : r.holds (r.value / grid * grid) = true := by
    rw [Nat.div_mul_cancel dvd]
    refine holds_of_lt ?_ (by omega)
    rcases h.low with low | ⟨-, low⟩ <;> omega
  unfold nearest?
  simp only [found, Bool.true_and, if_true]
  split
  · exact ⟨_, rfl⟩
  · exact ⟨_, rfl⟩

/-! ## The leading digit -/

/-- A number below one is at least a tenth behind its leading zeros. -/
theorem le_of_leadingZeros {value unit fuel : Nat} (h : unit ≤ value * 10 ^ fuel) :
    unit ≤ value * 10 ^ (leadingZeros value unit fuel + 1) := by
  induction fuel generalizing value with
  | zero =>
    rw [Nat.pow_zero, Nat.mul_one] at h
    rw [leadingZeros, Nat.zero_add, Nat.pow_one]
    omega
  | succ fuel ih =>
    unfold leadingZeros
    split
    · rwa [Nat.zero_add, Nat.pow_one]
    · rw [Nat.pow_succ', ← Nat.mul_assoc] at h
      rw [Nat.pow_succ', ← Nat.mul_assoc]
      exact ih h

/-- A number of at least one has no more digits than it says. -/
theorem le_of_digitCount {value unit : Nat} (hunit : 0 < unit) (h : unit ≤ value) :
    10 ^ (digitCount (value / unit) - 1) * unit ≤ value := by
  refine (Nat.mul_le_mul_right unit ?_).trans (Nat.div_mul_le_self value unit)
  rcases Nat.lt_or_ge 1 (digitCount (value / unit)) with many | one
  · refine Nat.le_of_not_lt fun short => ?_
    have digits := (Nat.length_toDigits_le_iff (by decide) (Nat.sub_pos_of_lt many)).2 short
    change digitCount (value / unit) ≤ _ at digits
    omega
  · rw [Nat.sub_eq_zero_of_le one, Nat.pow_zero]
    exact Nat.div_pos h hunit

end Rounding

/-! ## The interval of a double -/

section Interval

variable {d : Double}

/-- Two to the scale of the double. -/
def step (d : Double) : Nat := Nat.pow 2 d.scale

theorem step_pos (d : Double) : 0 < d.step := Nat.pow_pos (by decide)

theorem around_rounding (d : Double) : d.rounding.Around d.significand d.step where
  value := rfl
  high := rfl
  low := by
    unfold rounding step
    dsimp only
    split
    · rename_i boundary
      simp only [Bool.and_eq_true, decide_eq_true_eq] at boundary
      exact .inr ⟨boundary.1, rfl⟩
    · exact .inl rfl

theorem rounding_unit (d : Double) : d.rounding.unit = 4 * unitDenominator := rfl

theorem rounding_value (d : Double) : d.rounding.value = 4 * d.units := by
  rw [units, ← Nat.mul_assoc]
  rfl

/-- Behind 330 zeros at most every double has a digit. -/
theorem unitDenominator_le {n : Nat} (h : 330 ≤ n) : unitDenominator ≤ 10 ^ n := by
  obtain ⟨k, exponent, unit⟩ := unitDenominator_eq
  have power (n : Nat) : 2 ^ (33 * n) ≤ 10 ^ (10 * n) := by
    rw [Nat.pow_mul, Nat.pow_mul]
    exact Nat.pow_le_pow_left (by decide) n
  rw [unit]
  calc 2 ^ k ≤ 2 ^ (33 * 33) := Nat.pow_le_pow_right (by decide) (by omega)
    _ ≤ 10 ^ (10 * 33) := power 33
    _ ≤ 10 ^ n := Nat.pow_le_pow_right (by decide) (by omega)

/-- The number `n` lies in the interval of the double. -/
def Within (d : Double) (n : Nat) : Prop :=
  d.rounding.low ≤ n * d.rounding.unit ∧ n * d.rounding.unit ≤ d.rounding.high

/-- A decimal is found on a grid of at most the seventeenth place. -/
theorem exists_onGrid_of {k : Int}
    (coarse : 0 ≤ k → 10 ^ 16 * (10 ^ k.toNat * d.rounding.unit) ≤ d.rounding.value)
    (fine : k < 0 → 10 ^ 16 * d.rounding.unit ≤ d.rounding.value * 10 ^ (-k).toNat) :
    ∃ n, d.rounding.onGrid k = some n := by
  have unit : 0 < d.rounding.unit := Nat.mul_pos (by decide) unitDenominator_pos
  unfold Rounding.onGrid
  by_cases large : 0 ≤ k
  · rw [if_pos large]
    exact d.around_rounding.exists_nearest? d.significand_lt
      (Nat.mul_pos (Nat.pow_pos (by decide)) unit) (coarse large)
  · rw [if_neg large]
    exact (d.around_rounding.times _).exists_nearest? d.significand_lt unit
      (fine (Int.not_le.1 large))

/-- With seventeen digits a decimal is found. -/
theorem exists_onGrid (hd : 0 < d.significand) :
    ∃ n, d.rounding.onGrid (d.rounding.magnitude - 17) = some n := by
  have unit : 0 < d.rounding.unit := Nat.mul_pos (by decide) unitDenominator_pos
  unfold Rounding.magnitude
  by_cases large : d.rounding.unit ≤ d.rounding.value
  · have leading := Rounding.le_of_digitCount unit large
    rw [if_pos large]
    generalize digitCount (d.rounding.value / d.rounding.unit) = count at leading ⊢
    refine exists_onGrid_of (fun many => ?_) fun few => ?_
    · have places : ((count : Int) - 17).toNat = count - 17 := by omega
      rw [places, ← Nat.mul_assoc, ← Nat.pow_add]
      exact leading.trans' (Nat.mul_le_mul_right _ (Nat.pow_le_pow_right (by decide) (by omega)))
    · have places : (-((count : Int) - 17)).toNat = 17 - count := by omega
      rw [places]
      calc 10 ^ 16 * d.rounding.unit
          ≤ 10 ^ (count - 1 + (17 - count)) * d.rounding.unit :=
            Nat.mul_le_mul_right _ (Nat.pow_le_pow_right (by decide) (by omega))
        _ = 10 ^ (count - 1) * d.rounding.unit * 10 ^ (17 - count) := by ring
        _ ≤ d.rounding.value * 10 ^ (17 - count) := Nat.mul_le_mul_right _ leading
  · rw [if_neg large]
    have value : 4 ≤ d.rounding.value := by
      rw [rounding_value]
      exact Nat.le_mul_of_pos_right 4 (Nat.mul_pos hd d.step_pos)
    have first : d.rounding.unit ≤ d.rounding.value * 10 ^ 330 :=
      Nat.mul_le_mul value (unitDenominator_le (Nat.le_refl _))
    have leading := Rounding.le_of_leadingZeros first
    generalize Rounding.leadingZeros d.rounding.value d.rounding.unit 330 = zeros at leading ⊢
    refine exists_onGrid_of (fun many => by omega) fun _ => ?_
    have places : (-(-(zeros : Int) - 17)).toNat = zeros + 1 + 16 := by omega
    rw [places, Nat.pow_add, ← Nat.mul_assoc, Nat.mul_comm (10 ^ 16)]
    exact Nat.mul_le_mul_right _ leading

/-- The digits tried first are the fewest for which a decimal is found. -/
theorem exists_go {r : Rounding} {magnitude : Int} {count places : Nat} (fuel : Nat)
    (first : count ≤ places) (last : places < count + fuel)
    (found : ∃ n, r.onGrid (magnitude - places) = some n) :
    ∃ n e, Rounding.shortest.go r magnitude count fuel = (n, e) ∧ r.onGrid e = some n ∧
      magnitude - places ≤ e := by
  induction fuel generalizing count with
  | zero => omega
  | succ fuel ih =>
    unfold Rounding.shortest.go
    cases here : r.onGrid (magnitude - count) with
    | some n => exact ⟨n, _, rfl, here, by omega⟩
    | none =>
      have further : count ≠ places := by
        rintro rfl
        obtain ⟨n, found⟩ := found
        rw [here] at found
        cases found
      exact ih (by omega) (by omega)

/-- An integer is found without a fraction. -/
theorem exists_onGrid_of_isWhole (hd : 0 < d.significand) (hwhole : d.IsWhole) :
    ∃ places : Nat, 1 ≤ places ∧ places < 18 ∧ 0 ≤ d.rounding.magnitude - places ∧
      ∃ n, d.rounding.onGrid (d.rounding.magnitude - places) = some n := by
  obtain ⟨number, units⟩ := hwhole
  have value : d.rounding.value = d.rounding.unit * number := by
    rw [rounding_value, rounding_unit, units, Nat.mul_assoc]
  have unit : 0 < d.rounding.unit := Nat.mul_pos (by decide) unitDenominator_pos
  have positive : 0 < number := by
    refine Nat.pos_of_ne_zero fun zero => ?_
    have nonzero : 0 < d.units := Nat.mul_pos hd d.step_pos
    rw [units, zero, Nat.mul_zero] at nonzero
    exact Nat.lt_irrefl 0 nonzero
  have magnitude : d.rounding.magnitude = digitCount number := by
    have large : d.rounding.unit ≤ d.rounding.value :=
      (Nat.le_mul_of_pos_right _ positive).trans (Nat.le_of_eq value.symm)
    unfold Rounding.magnitude
    rw [if_pos large, value, Nat.mul_div_cancel_left _ unit]
  have digits : 0 < digitCount number := List.length_pos_iff.2 Nat.toDigits_ne_nil
  rw [magnitude]
  by_cases few : digitCount number < 18
  · refine ⟨digitCount number, digits, few, by omega, ?_⟩
    rw [Int.sub_self, Rounding.onGrid, if_pos (Int.le_refl 0)]
    refine d.around_rounding.exists_nearest?_of_dvd hd d.step_pos ?_
    exact ⟨number, value.trans (congrArg (· * number) (Nat.one_mul _).symm)⟩
  · refine ⟨17, by decide, by decide, by omega, ?_⟩
    rw [← magnitude]
    exact exists_onGrid hd

/-- The shortest decimal of a double that is not zero is found on a grid next to the double; that of
an integer has no fraction. -/
theorem exists_shortest (hd : 0 < d.significand) :
    ∃ n e, d.rounding.shortest = (n, e) ∧ d.rounding.onGrid e = some n ∧ (d.IsWhole → 0 ≤ e) := by
  by_cases hwhole : d.IsWhole
  · obtain ⟨places, first, last, whole, found⟩ := exists_onGrid_of_isWhole hd hwhole
    obtain ⟨n, e, shortest, onGrid, le⟩ := exists_go 17 first (by omega) found
    exact ⟨n, e, shortest, onGrid, fun _ => whole.trans le⟩
  · have fewest : 1 ≤ 17 := by decide
    obtain ⟨n, e, shortest, onGrid, -⟩ := exists_go 17 fewest (by decide) (exists_onGrid hd)
    exact ⟨n, e, shortest, onGrid, fun h => absurd h hwhole⟩

/-- A decimal without a fraction that is found lies in the interval. -/
theorem within_of_onGrid {e : Int} {n : Nat} (he : 0 ≤ e) (h : d.rounding.onGrid e = some n) :
    d.Within (n * 10 ^ e.toNat) := by
  unfold Rounding.onGrid at h
  rw [if_pos he] at h
  have inside := Rounding.within_of_holds (Rounding.holds_of_nearest? h)
  rwa [← Nat.mul_assoc] at inside

/-- So does one whose fraction is zero. -/
theorem within_of_onGrid_neg {e : Int} {n : Nat} (he : e < 0)
    (h : d.rounding.onGrid e = some (n * 10 ^ (-e).toNat)) : d.Within n := by
  unfold Rounding.onGrid at h
  rw [if_neg (Int.not_le.2 he)] at h
  obtain ⟨low, high⟩ := Rounding.within_of_holds (Rounding.holds_of_nearest? h)
  have power : 0 < Nat.pow 10 (-e).toNat := Nat.pow_pos (by decide)
  have swap : n * 10 ^ (-e).toNat * d.rounding.unit = n * d.rounding.unit * Nat.pow 10 (-e).toNat :=
    Nat.mul_right_comm _ _ _
  change d.rounding.low * Nat.pow 10 (-e).toNat ≤ n * 10 ^ (-e).toNat * d.rounding.unit at low
  change n * 10 ^ (-e).toNat * d.rounding.unit ≤ d.rounding.high * Nat.pow 10 (-e).toNat at high
  rw [swap] at low high
  exact ⟨Nat.le_of_mul_le_mul_right low power, Nat.le_of_mul_le_mul_right high power⟩

/-- Two to a smaller power is a divisor. -/
theorem step_dvd (h : d.scale ≤ 1074) : ∃ q, unitDenominator = q * d.step ∧ 0 < q := by
  obtain ⟨k, exponent, unit⟩ := unitDenominator_eq
  refine ⟨2 ^ (k - d.scale), ?_, Nat.two_pow_pos _⟩
  rw [unit, step, Nat.pow_eq, ← Nat.pow_add, Nat.sub_add_cancel (by omega)]

/-- If an integer lies in its interval, the double is an integer. -/
theorem isWhole_of_within {n : Nat} (h : d.Within n) : d.IsWhole := by
  rcases Nat.lt_or_ge 1074 d.scale with large | small
  · obtain ⟨k, exponent, unit⟩ := unitDenominator_eq
    have dvd : unitDenominator ∣ d.step := by
      rw [unit]
      exact Nat.pow_dvd_pow 2 (by omega)
    exact dvd.mul_left _
  · obtain ⟨q, unit, positive⟩ := step_dvd small
    obtain ⟨low, high⟩ := h
    have below := d.around_rounding.value_le
    rw [d.around_rounding.high] at high
    rw [rounding_value, units] at below high
    rw [rounding_unit, unit] at low high
    change 4 * (d.significand * d.step) ≤ _ at below
    change _ ≤ 4 * (d.significand * d.step) + _ at high
    -- Counted in halves of the last place, the integer is even and next to the significand.
    have upper : 2 * (2 * (n * q)) * d.step ≤ 2 * (2 * d.significand + 1) * d.step := by
      linarith
    have lower : 2 * (2 * d.significand) * d.step ≤ 2 * (2 * (n * q) + 1) * d.step := by
      linarith
    have same : d.significand = n * q := by
      have upper := Nat.le_of_mul_le_mul_right upper d.step_pos
      have lower := Nat.le_of_mul_le_mul_right lower d.step_pos
      omega
    refine ⟨n, ?_⟩
    rw [units, same, unit]
    change n * q * d.step = _
    ring

end Interval

end BoundSql.Double
