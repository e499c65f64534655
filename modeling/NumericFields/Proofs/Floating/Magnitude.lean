import Mathlib.Algebra.Order.Field.Power
import Mathlib.Data.Rat.Cast.Order
import Mathlib.Tactic
import NumericFields.Floating.Binary

/-!
# The numbers that magnitudes denote

Counted in the least subnormal, magnitudes denote natural numbers: a step of the
magnitude adds one unit of its binade, also where it leads into the next one.
The count goes on past the last finite magnitude, where infinity stands for the
next power of two, and that is what decides where rounding overflows.
-/

namespace NumericFields.Floating.Format

/-- The format has a leading digit to leave out and an exponent for it. -/
structure Proper (format : Format) : Prop where
  exponentBits : 2 ≤ format.exponentBits
  fractionBits : 1 ≤ format.fractionBits

theorem proper_single : single.Proper := ⟨by decide, by decide⟩

theorem proper_double : double.Proper := ⟨by decide, by decide⟩

variable (format : Format)

def significand (magnitude : Nat) : Nat :=
  if magnitude / 2 ^ format.fractionBits = 0 then magnitude % 2 ^ format.fractionBits
  else 2 ^ format.fractionBits + magnitude % 2 ^ format.fractionBits

/-- The number that a magnitude denotes, in units of the least subnormal. -/
def units (magnitude : Nat) : Nat :=
  format.significand magnitude * 2 ^ (magnitude / 2 ^ format.fractionBits - 1)

def value (magnitude : Nat) : ℚ :=
  format.units magnitude * (2 : ℚ) ^ format.leastExponent

theorem units_subnormal {fraction : Nat}
    (small : fraction < 2 ^ format.fractionBits) :
    format.units fraction = fraction := by
  simp [units, significand, Nat.div_eq_of_lt small, Nat.mod_eq_of_lt small]

theorem units_normal (binade : Nat) {fraction : Nat}
    (small : fraction < 2 ^ format.fractionBits) :
    format.units ((binade + 1) * 2 ^ format.fractionBits + fraction) =
      (2 ^ format.fractionBits + fraction) * 2 ^ binade := by
  have positive : 0 < 2 ^ format.fractionBits := by positivity
  have field : ((binade + 1) * 2 ^ format.fractionBits + fraction) /
      2 ^ format.fractionBits = binade + 1 := by
    rw [Nat.add_comm, Nat.add_mul_div_right _ _ positive, Nat.div_eq_of_lt small,
      Nat.zero_add]
  have rest : ((binade + 1) * 2 ^ format.fractionBits + fraction) %
      2 ^ format.fractionBits = fraction := by
    rw [Nat.add_comm, Nat.add_mul_mod_self_right, Nat.mod_eq_of_lt small]
  simp [units, significand, field, rest]

theorem units_binade {binade count : Nat}
    (normal : binade = 0 ∨ 2 ^ format.fractionBits ≤ count)
    (most : count ≤ 2 * 2 ^ format.fractionBits) :
    format.units (binade * 2 ^ format.fractionBits + count) = count * 2 ^ binade := by
  have positive : 0 < 2 ^ format.fractionBits := by positivity
  rcases Nat.lt_or_ge count (2 ^ format.fractionBits) with small | large
  · obtain rfl : binade = 0 := normal.resolve_right (by omega)
    simp [format.units_subnormal small]
  · rcases Nat.lt_or_ge count (2 * 2 ^ format.fractionBits) with inside | last
    · obtain ⟨fraction, rfl⟩ := Nat.exists_eq_add_of_le large
      rw [show binade * 2 ^ format.fractionBits +
          (2 ^ format.fractionBits + fraction) =
          (binade + 1) * 2 ^ format.fractionBits + fraction by ring]
      exact format.units_normal binade (by omega)
    · -- The last count of a binade is the first of the next one.
      obtain rfl : count = 2 * 2 ^ format.fractionBits := by omega
      rw [show binade * 2 ^ format.fractionBits + 2 * 2 ^ format.fractionBits =
          (binade + 1 + 1) * 2 ^ format.fractionBits + 0 by ring,
        format.units_normal (binade + 1) positive]
      ring

theorem exists_binade (magnitude : Nat) :
    ∃ binade count, magnitude = binade * 2 ^ format.fractionBits + count ∧
      (binade = 0 ∨ 2 ^ format.fractionBits ≤ count) ∧
      count < 2 * 2 ^ format.fractionBits := by
  have positive : 0 < 2 ^ format.fractionBits := by positivity
  have split := Nat.div_add_mod' magnitude (2 ^ format.fractionBits)
  have small := Nat.mod_lt magnitude positive
  cases field : magnitude / 2 ^ format.fractionBits with
  | zero =>
      refine ⟨0, magnitude % 2 ^ format.fractionBits, ?_, .inl rfl, by omega⟩
      rw [← field, split]
  | succ binade =>
      refine ⟨binade, 2 ^ format.fractionBits + magnitude % 2 ^ format.fractionBits,
        ?_, .inr (Nat.le_add_right _ _), by omega⟩
      rw [← Nat.add_assoc, ← Nat.succ_mul, Nat.succ_eq_add_one, ← field, split]

theorem units_strictMono : StrictMono format.units := by
  refine strictMono_nat_of_lt_succ fun magnitude => ?_
  obtain ⟨binade, count, rfl, normal, small⟩ := format.exists_binade magnitude
  rw [Nat.add_assoc, format.units_binade normal small.le,
    format.units_binade (normal.imp_right Nat.le_succ_of_le) small]
  exact Nat.mul_lt_mul_of_pos_right (Nat.lt_succ_self count) (by positivity)

theorem value_strictMono : StrictMono format.value := by
  intro first second less
  have unit : (0 : ℚ) < 2 ^ format.leastExponent := by positivity
  have units : (format.units first : ℚ) < format.units second := by
    exact_mod_cast format.units_strictMono less
  exact mul_lt_mul_of_pos_right units unit

@[simp] theorem value_zero : format.value 0 = 0 := by
  simp [value, units, significand]

theorem value_nonneg (magnitude : Nat) : 0 ≤ format.value magnitude := by
  unfold value
  positivity

theorem value_binade {binade count : Nat}
    (normal : binade = 0 ∨ 2 ^ format.fractionBits ≤ count)
    (most : count ≤ 2 * 2 ^ format.fractionBits) :
    format.value (binade * 2 ^ format.fractionBits + count) =
      count * (2 : ℚ) ^ (format.leastExponent + binade) := by
  rw [value, format.units_binade normal most, zpow_add₀ (by norm_num), zpow_natCast]
  push_cast
  ring

theorem value_one : format.value 1 = 2 ^ format.leastExponent := by
  have positive := Nat.two_pow_pos format.fractionBits
  have one := format.value_binade (.inl rfl : 0 = 0 ∨ _)
    (show 1 ≤ 2 * 2 ^ format.fractionBits by omega)
  simpa using one

/-! ## The end of the finite magnitudes -/

/-- The least number that is rounded to infinity: half a unit above the greatest
finite number. -/
def threshold : ℚ :=
  2 ^ ((format.maxExponent : ℤ) + 1) -
    2 ^ ((format.maxExponent : ℤ) - format.fractionBits - 1)

theorem threshold_single : single.threshold = 2 ^ 128 - 2 ^ 103 := by
  rw [threshold, show single.maxExponent = 127 from rfl,
    show single.fractionBits = 23 from rfl]
  norm_num

theorem threshold_double : double.threshold = 2 ^ 1024 - 2 ^ 970 := by
  rw [threshold, show double.maxExponent = 1023 from rfl,
    show double.fractionBits = 52 from rfl]
  norm_num

theorem threshold_le : format.threshold ≤ 2 ^ ((format.maxExponent : ℤ) + 1) :=
  sub_le_self _ (by positivity)

theorem le_threshold : 2 ^ format.maxExponent ≤ format.threshold := by
  have half : (2 : ℚ) ^ ((format.maxExponent : ℤ) - format.fractionBits - 1) ≤
      2 ^ (format.maxExponent : ℤ) :=
    zpow_le_zpow_right₀ one_le_two (by omega)
  rw [threshold, zpow_add_one₀ two_ne_zero, zpow_natCast]
  rw [zpow_natCast] at half
  linarith

variable {format}

theorem Proper.four_le (proper : format.Proper) : 4 ≤ 2 ^ format.exponentBits := by
  calc
    4 = 2 ^ 2 := rfl
    _ ≤ 2 ^ format.exponentBits := Nat.pow_le_pow_right two_pos proper.exponentBits

theorem Proper.exponents (proper : format.Proper) :
    2 * (format.maxExponent + 1) = 2 ^ format.exponentBits := by
  obtain ⟨bits, same⟩ := Nat.exists_eq_add_of_le proper.exponentBits
  have positive : 0 < 2 ^ bits := by positivity
  simp only [maxExponent, same, Nat.one_shiftLeft]
  rw [show 2 + bits - 1 = bits + 1 by omega, show 2 + bits = bits + 1 + 1 by omega]
  simp only [pow_succ]
  omega

theorem infinity_eq (format : Format) :
    format.infinity = (2 ^ format.exponentBits - 1) * 2 ^ format.fractionBits := by
  simp [infinity, specialField, Nat.shiftLeft_eq]

theorem infinity_lt (format : Format) :
    format.infinity < 2 ^ format.magnitudeBits := by
  rw [infinity_eq, magnitudeBits, pow_add]
  exact Nat.mul_lt_mul_of_pos_right (Nat.sub_lt (Nat.two_pow_pos _) Nat.one_pos)
    (Nat.two_pow_pos _)

theorem infinity_lt_notANumber (format : Format) :
    format.infinity < format.notANumber := by
  rw [notANumber, Nat.one_shiftLeft]
  exact Nat.lt_add_of_pos_right (Nat.two_pow_pos _)

theorem Proper.notANumber_lt (proper : format.Proper) :
    format.notANumber < 2 ^ format.magnitudeBits := by
  have fields := Nat.two_pow_pos format.exponentBits
  have half : 2 ^ (format.fractionBits - 1) < 2 ^ format.fractionBits :=
    Nat.pow_lt_pow_right one_lt_two (by have := proper.fractionBits; omega)
  have whole :
      2 ^ format.magnitudeBits = format.infinity + 2 ^ format.fractionBits := by
    rw [infinity_eq, magnitudeBits, pow_add, ← Nat.succ_mul, Nat.succ_eq_add_one,
      Nat.sub_add_cancel fields]
  rw [notANumber, Nat.one_shiftLeft]
  omega

theorem Proper.infinity_split (proper : format.Proper) :
    format.infinity = (2 ^ format.exponentBits - 3) * 2 ^ format.fractionBits +
      2 * 2 ^ format.fractionBits := by
  have fields := proper.four_le
  rw [infinity_eq, ← Nat.add_mul]
  congr 1
  omega

theorem Proper.two_le (proper : format.Proper) : 2 ≤ 2 ^ format.fractionBits := by
  calc
    2 = 2 ^ 1 := rfl
    _ ≤ 2 ^ format.fractionBits := Nat.pow_le_pow_right two_pos proper.fractionBits

theorem Proper.infinity_pos (proper : format.Proper) : 0 < format.infinity := by
  have fraction := proper.two_le
  rw [proper.infinity_split]
  omega

theorem Proper.even_infinity (proper : format.Proper) : Even format.infinity := by
  rw [infinity_eq]
  exact ((even_two.pow_of_ne_zero (by have := proper.fractionBits; omega))).mul_left _

theorem Proper.leastExponent_add (proper : format.Proper) :
    format.leastExponent + ((2 ^ format.exponentBits - 3 : Nat) : ℤ) =
      format.maxExponent - format.fractionBits := by
  have exponents := proper.exponents
  have fields := proper.four_le
  simp only [leastExponent, Int.ofNat_eq_natCast]
  omega

theorem Proper.value_infinity (proper : format.Proper) :
    format.value format.infinity =
      (2 * 2 ^ format.fractionBits : ℕ) *
        (2 : ℚ) ^ ((format.maxExponent : ℤ) - format.fractionBits) := by
  rw [proper.infinity_split, format.value_binade (.inr (by omega)) le_rfl,
    proper.leastExponent_add]

theorem Proper.value_greatest (proper : format.Proper) :
    format.value (format.infinity - 1) =
      (2 * 2 ^ format.fractionBits - 1 : ℕ) *
        (2 : ℚ) ^ ((format.maxExponent : ℤ) - format.fractionBits) := by
  have fraction := proper.two_le
  rw [proper.infinity_split, Nat.add_sub_assoc (by omega),
    format.value_binade (.inr (by omega)) (by omega), proper.leastExponent_add]

/-- The threshold lies halfway between the last finite number and the one that
infinity stands for. -/
theorem Proper.two_mul_threshold (proper : format.Proper) :
    2 * format.threshold =
      format.value (format.infinity - 1) + format.value format.infinity := by
  have fraction := proper.two_le
  have base : (2 : ℚ) ≠ 0 := by norm_num
  rw [proper.value_infinity, proper.value_greatest, threshold,
    show (format.maxExponent : ℤ) + 1 =
      ((format.maxExponent : ℤ) - format.fractionBits) +
        format.fractionBits + 1 by ring,
    zpow_add_one₀ base, zpow_add₀ base, zpow_sub_one₀ base, zpow_natCast,
    Nat.cast_sub (by omega)]
  push_cast
  ring

theorem Proper.threshold_lt (proper : format.Proper) :
    format.threshold < format.value format.infinity := by
  have half := proper.two_mul_threshold
  have last : format.value (format.infinity - 1) < format.value format.infinity :=
    format.value_strictMono (Nat.sub_lt proper.infinity_pos one_pos)
  linarith

theorem Proper.lt_infinity (proper : format.Proper) {magnitude : ℕ}
    (near : format.value magnitude < format.threshold) : magnitude < format.infinity :=
  format.value_strictMono.lt_iff_lt.mp (near.trans proper.threshold_lt)

/-! ## Natural numbers -/

theorem exists_shift {bits number : ℕ} (positive : 0 < number)
    (small : number ≤ 2 * 2 ^ bits) :
    ∃ shift ≤ bits, 2 ^ bits ≤ number * 2 ^ shift ∧ number * 2 ^ shift ≤ 2 * 2 ^ bits := by
  induction bits with
  | zero => exact ⟨0, le_rfl, by simpa using positive.nat_succ_le, by simpa using small⟩
  | succ bits ih =>
      rcases Nat.lt_or_ge number (2 ^ (bits + 1)) with below | full
      · rw [pow_succ'] at below
        obtain ⟨shift, inside, low, high⟩ := ih below.le
        refine ⟨shift + 1, Nat.succ_le_succ inside, ?_, ?_⟩
        · rw [pow_succ, pow_succ, ← Nat.mul_assoc]
          exact Nat.mul_le_mul_right 2 low
        · rw [pow_succ, pow_succ, ← Nat.mul_assoc, ← Nat.mul_assoc]
          exact Nat.mul_le_mul_right 2 high
      · exact ⟨0, Nat.zero_le _, by simpa using full, by simpa using small⟩

/-- The least exponent is low enough for every shift that a significand has room for. -/
theorem Proper.exists_binade (proper : format.Proper) {shift : ℕ}
    (inside : shift ≤ format.fractionBits) :
    ∃ binade : ℕ, format.leastExponent + binade = -(shift : ℤ) := by
  have exponents := proper.exponents
  have fields := proper.four_le
  refine ⟨format.maxExponent - 1 + (format.fractionBits - shift), ?_⟩
  simp only [leastExponent, Int.ofNat_eq_natCast]
  omega

theorem Proper.exists_value_eq (proper : format.Proper) {number : ℕ}
    (small : number ≤ 2 ^ (format.fractionBits + 1)) :
    ∃ magnitude, format.value magnitude = number := by
  rcases Nat.eq_zero_or_pos number with rfl | positive
  · exact ⟨0, by simp⟩
  · rw [pow_succ'] at small
    obtain ⟨shift, inside, low, high⟩ := exists_shift positive small
    obtain ⟨binade, unit⟩ := proper.exists_binade inside
    refine ⟨binade * 2 ^ format.fractionBits + number * 2 ^ shift, ?_⟩
    rw [format.value_binade (.inr low) high, unit, zpow_neg, zpow_natCast, Nat.cast_mul,
      Nat.cast_pow, Nat.cast_ofNat, mul_inv_cancel_right₀ (by positivity)]

end NumericFields.Floating.Format
