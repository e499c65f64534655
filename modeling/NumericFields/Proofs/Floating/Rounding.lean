import Mathlib.Algebra.Order.Floor.Semifield
import Mathlib.Data.Rat.Floor
import NumericFields.Floating.Binary
import NumericFields.Proofs.Floating.Nearest

/-!
# Rounding is correct

A quotient measured in the unit of its binade is a count that stays within the
binade, so the magnitudes below and above the quotient are those of the count and
of the next one.  The rule on the remainder is then the rule on the quotient
itself, and the scales that are decided early lie past both ends of the format.
-/

namespace NumericFields.Floating.Rounding

variable {format : Format} {numerator denominator : ℕ}

theorem zpow_eq_toNat (base : ℚ) (exponent : ℤ) :
    base ^ exponent = base ^ exponent.toNat / base ^ (-exponent).toNat := by
  rcases Int.le_total 0 exponent with nonneg | nonpos
  · obtain ⟨power, rfl⟩ := Int.eq_ofNat_of_zero_le nonneg
    simp
  · obtain ⟨power, same⟩ := Int.eq_ofNat_of_zero_le (Int.neg_nonneg.mpr nonpos)
    obtain rfl : exponent = -power := by omega
    simp

/-! ## Quotients in units -/

theorem inUnits_fst (exponent : ℤ) :
    ((inUnits numerator denominator exponent).1 : ℚ) =
      numerator * 2 ^ (-exponent).toNat := by
  simp [inUnits, Nat.shiftLeft_eq]

theorem inUnits_snd (exponent : ℤ) :
    ((inUnits numerator denominator exponent).2 : ℚ) =
      denominator * 2 ^ exponent.toNat := by
  simp [inUnits, Nat.shiftLeft_eq]

theorem inUnits_snd_pos (numerator : ℕ) (positive : 0 < denominator) (exponent : ℤ) :
    0 < (inUnits numerator denominator exponent).2 := by
  simp only [inUnits, Nat.shiftLeft_eq]
  exact Nat.mul_pos positive (Nat.two_pow_pos _)

theorem inUnits_mul (positive : 0 < denominator) (exponent : ℤ) :
    ((inUnits numerator denominator exponent).1 : ℚ) /
        (inUnits numerator denominator exponent).2 * 2 ^ exponent =
      numerator / denominator := by
  have nonzero : (denominator : ℚ) ≠ 0 := by positivity
  rw [inUnits_fst, inUnits_snd, zpow_eq_toNat]
  field_simp

theorem inUnits_lt_iff (positive : 0 < denominator) (exponent : ℤ) :
    (inUnits numerator denominator exponent).1 <
        (inUnits numerator denominator exponent).2 ↔
      (numerator : ℚ) / denominator < 2 ^ exponent := by
  have below : (0 : ℚ) < (inUnits numerator denominator exponent).2 := by
    exact_mod_cast inUnits_snd_pos numerator positive exponent
  have unit : (0 : ℚ) < 2 ^ exponent := by positivity
  rw [← inUnits_mul positive exponent, mul_lt_iff_lt_one_left unit, div_lt_one below,
    Nat.cast_lt]

theorem two_pow_log2_le (positive : 0 < numerator) :
    (2 : ℚ) ^ numerator.log2 ≤ numerator := by
  exact_mod_cast Nat.log2_self_le positive.ne'

theorem lt_two_pow_log2 : (numerator : ℚ) < 2 ^ (numerator.log2 + 1) := by
  exact_mod_cast Nat.lt_log2_self

theorem leadingExponent_spec (hnumerator : 0 < numerator)
    (hdenominator : 0 < denominator) :
    (2 : ℚ) ^ leadingExponent numerator denominator ≤ numerator / denominator ∧
      (numerator : ℚ) / denominator <
        2 ^ (leadingExponent numerator denominator + 1) := by
  have positive : (0 : ℚ) < denominator := by exact_mod_cast hdenominator
  have low : (2 : ℚ) ^ ((numerator.log2 : ℤ) - denominator.log2 - 1) ≤
      numerator / denominator := by
    rw [le_div_iff₀ positive, sub_sub, zpow_sub₀ two_ne_zero, div_mul_eq_mul_div]
    refine (div_le_iff₀ (by positivity)).mpr ?_
    exact mul_le_mul (by exact_mod_cast two_pow_log2_le hnumerator)
      (by exact_mod_cast lt_two_pow_log2.le) positive.le (by positivity)
  have high : (numerator : ℚ) / denominator <
      2 ^ ((numerator.log2 : ℤ) - denominator.log2 + 1) := by
    rw [div_lt_iff₀ positive, sub_add_eq_add_sub, zpow_sub₀ two_ne_zero,
      div_mul_eq_mul_div]
    refine (lt_div_iff₀ (by positivity)).mpr ?_
    exact mul_lt_mul (by exact_mod_cast lt_two_pow_log2)
      (by exact_mod_cast two_pow_log2_le hdenominator) (by positivity) (by positivity)
  -- The difference of the logarithms is the leading exponent or one more.
  unfold leadingExponent
  simp only [inUnits_lt_iff hdenominator, Int.ofNat_eq_natCast]
  split
  · case isTrue below =>
      rw [sub_add_cancel]
      exact ⟨low, below⟩
  · case isFalse above => exact ⟨not_lt.mp above, high⟩

/-! ## The rule on the remainder -/

/-- Where two neighbouring magnitudes count the units on either side of a quotient,
the rule on its remainder picks the one that it is rounded to. -/
theorem picked_halfEven (positive : 0 < denominator) {value : ℕ → ℚ} {unit : ℚ}
    (hunit : 0 < unit) {start : ℕ} (even : start % 2 = 0)
    (below : value (start + numerator / denominator) =
      (numerator / denominator : ℕ) * unit)
    (above : value (start + numerator / denominator + 1) =
      ((numerator / denominator : ℕ) + 1) * unit) :
    Picked value (numerator / denominator * unit) (start + numerator / denominator)
      (start + halfEven numerator denominator) := by
  have hdenominator : (0 : ℚ) < denominator := by exact_mod_cast positive
  have split := Nat.div_add_mod numerator denominator
  set count := numerator / denominator
  have product :
      (2 * count + 1) * denominator = 2 * (denominator * count) + denominator := by
    ring
  have sum :
      value (start + count) + value (start + count + 1) = (2 * count + 1) * unit := by
    rw [below, above]
    ring
  have twice : 2 * (numerator / denominator * unit) =
      (2 * numerator : ℚ) / denominator * unit := by
    ring
  have closer : value (start + count) + value (start + count + 1) <
      2 * (numerator / denominator * unit) ↔
        denominator < 2 * (numerator % denominator) := by
    rw [sum, twice, mul_lt_mul_iff_left₀ hunit, lt_div_iff₀ hdenominator]
    norm_cast
    omega
  have halfway : value (start + count) + value (start + count + 1) =
      2 * (numerator / denominator * unit) ↔
        2 * (numerator % denominator) = denominator := by
    rw [sum, twice, mul_left_inj' hunit.ne', eq_div_iff hdenominator.ne']
    norm_cast
    omega
  have odd : (start + count) % 2 = 1 ↔ count % 2 = 1 := by omega
  unfold Picked RoundsUp
  rw [closer, halfway, odd]
  unfold halfEven
  by_cases up : denominator < 2 * (numerator % denominator) ∨
      (2 * (numerator % denominator) = denominator ∧ count % 2 = 1)
  · exact .inl ⟨up, by rw [if_pos up, Nat.add_assoc]⟩
  · exact .inr ⟨up, by rw [if_neg up]⟩

/-! ## Quotients and decimal numbers -/

theorem leastExponent_le_unitExponent (format : Format) (numerator denominator : ℕ) :
    format.leastExponent ≤ unitExponent format numerator denominator :=
  le_max_left _ _

theorem lt_unitExponent (format : Format) (hnumerator : 0 < numerator)
    (hdenominator : 0 < denominator) :
    (numerator : ℚ) / denominator < (2 * 2 ^ format.fractionBits : ℕ) *
      2 ^ unitExponent format numerator denominator := by
  have bound := (leadingExponent_spec hnumerator hdenominator).2
  have larger : leadingExponent numerator denominator - format.fractionBits ≤
      unitExponent format numerator denominator := le_max_right _ _
  calc
    (numerator : ℚ) / denominator <
        2 ^ (leadingExponent numerator denominator + 1) := bound
    _ ≤ 2 ^ ((format.fractionBits + 1 : ℕ) +
          unitExponent format numerator denominator) := by
        refine zpow_le_zpow_right₀ one_le_two ?_
        push_cast
        omega
    _ = _ := by
        rw [zpow_add₀ two_ne_zero, zpow_natCast, pow_succ']
        push_cast
        rfl

theorem unitExponent_le (hnumerator : 0 < numerator) (hdenominator : 0 < denominator)
    (normal : unitExponent format numerator denominator ≠ format.leastExponent) :
    (2 ^ format.fractionBits : ℕ) *
        (2 : ℚ) ^ unitExponent format numerator denominator ≤
      numerator / denominator := by
  have bound := (leadingExponent_spec hnumerator hdenominator).1
  have same : unitExponent format numerator denominator =
      leadingExponent numerator denominator - format.fractionBits :=
    (max_choice _ _).resolve_left normal
  calc
    (2 ^ format.fractionBits : ℕ) *
        (2 : ℚ) ^ unitExponent format numerator denominator =
        2 ^ (format.fractionBits + unitExponent format numerator denominator) := by
      rw [zpow_add₀ two_ne_zero, zpow_natCast]
      push_cast
      rfl
    _ = 2 ^ leadingExponent numerator denominator := by rw [same, add_sub_cancel]
    _ ≤ numerator / denominator := bound

/-- A count of units that stays within its binade is rounded by its remainder. -/
theorem rounded_count (proper : format.Proper) (positive : 0 < denominator)
    {binade : ℕ}
    (low : binade ≠ 0 → (2 ^ format.fractionBits : ℕ) ≤ (numerator : ℚ) / denominator)
    (high : (numerator : ℚ) / denominator < (2 * 2 ^ format.fractionBits : ℕ)) :
    Rounded format (numerator / denominator * 2 ^ (format.leastExponent + binade))
      (min format.infinity
        (binade * 2 ^ format.fractionBits + halfEven numerator denominator)) := by
  have nonneg : (0 : ℚ) ≤ numerator / denominator := by positivity
  have unit : (0 : ℚ) < 2 ^ (format.leastExponent + binade) := by positivity
  have floor := Nat.floor_div_eq_div (K := ℚ) numerator denominator
  have least : (numerator / denominator : ℕ) ≤ (numerator : ℚ) / denominator :=
    Nat.cast_div_le
  have next : (numerator : ℚ) / denominator < (numerator / denominator : ℕ) + 1 := by
    rw [← floor]
    exact Nat.lt_floor_add_one _
  have normal : binade = 0 ∨ 2 ^ format.fractionBits ≤ numerator / denominator := by
    rcases Nat.eq_zero_or_pos binade with zero | later
    · exact .inl zero
    · rw [← floor]
      exact .inr (Nat.le_floor (low later.ne'))
  have most : numerator / denominator < 2 * 2 ^ format.fractionBits := by
    rw [← floor]
    exact (Nat.floor_lt nonneg).mpr high
  have even : binade * 2 ^ format.fractionBits % 2 = 0 := by
    obtain ⟨bits, same⟩ := Nat.exists_eq_add_of_le proper.fractionBits
    rw [same, pow_add, pow_one, Nat.mul_left_comm, Nat.mul_mod_right]
  have below := format.value_binade normal most.le
  have above := format.value_binade (normal.imp_right Nat.le_succ_of_le) most
  rw [Nat.add_succ, Nat.cast_succ] at above
  refine .of_bracket proper ?_ ?_ (picked_halfEven positive unit even below above)
  · rw [below]
    exact mul_le_mul_of_nonneg_right least unit.le
  · rw [above]
    exact mul_lt_mul_of_pos_right next unit

theorem rounded_ofQuotient (proper : format.Proper) (hnumerator : 0 < numerator)
    (hdenominator : 0 < denominator) :
    Rounded format (numerator / denominator)
      (ofQuotient format numerator denominator) := by
  have least := leastExponent_le_unitExponent format numerator denominator
  have high := lt_unitExponent format hnumerator hdenominator
  have low : unitExponent format numerator denominator ≠ format.leastExponent → _ :=
    unitExponent_le hnumerator hdenominator
  simp only [ofQuotient, Nat.shiftLeft_eq]
  generalize unitExponent format numerator denominator = unit at least high low ⊢
  obtain ⟨binade, hbinade⟩ := Int.eq_ofNat_of_zero_le (Int.sub_nonneg.mpr least)
  obtain rfl : unit = format.leastExponent + binade := by omega
  have scaled : (0 : ℚ) < 2 ^ (format.leastExponent + (binade : ℤ)) := by positivity
  rw [← inUnits_mul hdenominator (format.leastExponent + binade)] at high low ⊢
  rw [hbinade, Int.toNat_natCast]
  refine rounded_count proper (inUnits_snd_pos numerator hdenominator _) ?_ ?_
  · intro later
    exact le_of_mul_le_mul_right (low (by omega)) scaled
  · exact lt_of_mul_lt_mul_right high scaled.le

theorem quotient_div (coefficient : ℕ) (scale : ℤ) :
    ((quotient coefficient scale).1 : ℚ) / (quotient coefficient scale).2 =
      coefficient * 10 ^ scale := by
  rw [zpow_eq_toNat]
  simp [quotient, mul_div_assoc]

/-! ## The scales decided early -/

theorem zpow_le_zpow_of_nonpos {less more : ℚ} (positive : 0 < less)
    (le : less ≤ more) {exponent : ℤ} (nonpos : exponent ≤ 0) :
    more ^ exponent ≤ less ^ exponent := by
  obtain ⟨power, same⟩ := Int.eq_ofNat_of_zero_le (Int.neg_nonneg.mpr nonpos)
  obtain rfl : exponent = -power := by omega
  rw [zpow_neg, zpow_neg, zpow_natCast, zpow_natCast]
  exact inv_anti₀ (by positivity) (pow_le_pow_left₀ positive.le le power)

theorem two_zpow_le_ten_zpow (scale : ℤ) :
    (2 : ℚ) ^ floorExponent scale ≤ 10 ^ scale := by
  unfold floorExponent
  split
  · case isTrue nonneg =>
      rw [zpow_mul]
      exact zpow_le_zpow_left₀ nonneg (by norm_num) (by norm_num)
  · case isFalse negative =>
      rw [zpow_mul]
      exact zpow_le_zpow_of_nonpos (by norm_num) (by norm_num) (by omega)

theorem ten_zpow_le_two_zpow (scale : ℤ) :
    (10 : ℚ) ^ scale ≤ 2 ^ ceilExponent scale := by
  unfold ceilExponent
  split
  · case isTrue nonneg =>
      rw [zpow_mul]
      exact zpow_le_zpow_left₀ nonneg (by norm_num) (by norm_num)
  · case isFalse negative =>
      rw [zpow_mul]
      exact zpow_le_zpow_of_nonpos (by norm_num) (by norm_num) (by omega)

variable {coefficient : ℕ} {scale : ℤ}

theorem threshold_le_of_large (positive : 0 < coefficient)
    (large : (format.maxExponent : ℤ) < coefficient.log2 + floorExponent scale) :
    format.threshold ≤ coefficient * 10 ^ scale := by
  calc
    format.threshold ≤ 2 ^ ((format.maxExponent : ℤ) + 1) := format.threshold_le
    _ ≤ 2 ^ ((coefficient.log2 : ℤ) + floorExponent scale) :=
        zpow_le_zpow_right₀ one_le_two large
    _ = 2 ^ coefficient.log2 * 2 ^ floorExponent scale := by
        rw [zpow_add₀ two_ne_zero, zpow_natCast]
    _ ≤ coefficient * 10 ^ scale :=
        mul_le_mul (two_pow_log2_le positive) (two_zpow_le_ten_zpow scale)
          (by positivity) (by positivity)

theorem two_mul_lt_of_small
    (small : (coefficient.log2 : ℤ) + 1 + ceilExponent scale < format.leastExponent) :
    2 * (coefficient * (10 : ℚ) ^ scale) < format.value 1 := by
  rw [format.value_one]
  calc
    2 * (coefficient * (10 : ℚ) ^ scale) <
        2 * (2 ^ (coefficient.log2 + 1) * 2 ^ ceilExponent scale) := by
        refine mul_lt_mul_of_pos_left ?_ two_pos
        exact mul_lt_mul lt_two_pow_log2 (ten_zpow_le_two_zpow scale)
          (by positivity) (by positivity)
    _ = 2 ^ ((coefficient.log2 : ℤ) + 1 + ceilExponent scale + 1) := by
        rw [zpow_add_one₀ two_ne_zero, zpow_add₀ two_ne_zero]
        norm_cast
        ring
    _ ≤ 2 ^ format.leastExponent := zpow_le_zpow_right₀ one_le_two small

theorem rounded_ofDecimal (proper : format.Proper) (coefficient : ℕ) (scale : ℤ) :
    Rounded format (coefficient * 10 ^ scale)
      (ofDecimal format coefficient scale) := by
  have positive : (0 : ℚ) < 10 ^ scale := by positivity
  unfold ofDecimal
  simp only [Int.ofNat_eq_natCast]
  split_ifs with zero large small
  · have first := format.value_strictMono Nat.zero_lt_one
    refine .zero_of_small proper (by positivity) ?_
    simpa [zero] using first
  · exact .infinity_of_le (threshold_le_of_large (Nat.pos_of_ne_zero zero) large)
  · exact .zero_of_small proper (by positivity) (two_mul_lt_of_small small)
  · rw [← quotient_div]
    refine rounded_ofQuotient proper ?_ ?_
    · exact Nat.mul_pos (Nat.pos_of_ne_zero zero) (Nat.pow_pos (by decide))
    · exact Nat.pow_pos (by decide)

end NumericFields.Floating.Rounding
