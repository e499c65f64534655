import NumericFields.Proofs.Floating.Nearest

/-!
# The datum nearest to a number

A datum is its sign and its magnitude.  Among all finite data, of either sign,
the nearest to a number and the one that keeps the sign of the number is found by
its magnitude alone.
-/

namespace NumericFields.Floating

def signed (negative : Bool) (number : ℚ) : ℚ := if negative then -number else number

theorem abs_signed (negative : Bool) {number : ℚ} (nonneg : 0 ≤ number) :
    |signed negative number| = number := by
  cases negative <;> simp [signed, abs_of_nonneg nonneg]

theorem signed_injective (negative : Bool) :
    Function.Injective (signed negative) := by
  intro first second same
  cases negative <;> simpa [signed] using same

namespace Binary

variable {format : Format} {datum other : Binary format} {magnitude : ℕ}

theorem isNegative_eq (datum : Binary format) :
    datum.isNegative = decide (2 ^ format.magnitudeBits ≤ datum.word.toNat) :=
  BitVec.msb_eq_decide datum.word

theorem toNat_word (datum : Binary format) :
    datum.word.toNat =
      (if datum.isNegative then 2 ^ format.magnitudeBits else 0) +
        datum.magnitude := by
  have bound : datum.word.toNat < 2 ^ format.magnitudeBits * 2 := by
    simpa [Format.width, pow_succ] using datum.word.isLt
  rw [isNegative_eq, magnitude, Nat.one_shiftLeft]
  rcases Nat.lt_or_ge datum.word.toNat (2 ^ format.magnitudeBits) with clear | set
  · simp [clear, Nat.mod_eq_of_lt clear]
  · rw [Nat.mod_eq_sub_mod set, Nat.mod_eq_of_lt (by omega)]
    simp [set]

theorem ext_parts (sign : datum.isNegative = other.isNegative)
    (same : datum.magnitude = other.magnitude) : datum = other := by
  have word : datum.word = other.word := by
    apply BitVec.eq_of_toNat_eq
    rw [toNat_word, toNat_word, sign, same]
  cases datum
  cases other
  simpa using word

theorem toNat_ofParts (negative : Bool)
    (small : magnitude < 2 ^ format.magnitudeBits) :
    (ofParts negative magnitude : Binary format).word.toNat =
      (if negative then 2 ^ format.magnitudeBits else 0) + magnitude := by
  have bound : (if negative then 2 ^ format.magnitudeBits else 0) + magnitude <
      2 ^ format.width := by
    rw [Format.width, pow_succ]
    split <;> omega
  simp only [ofParts, Nat.one_shiftLeft, BitVec.toNat_ofNat]
  exact Nat.mod_eq_of_lt bound

@[simp] theorem isNegative_ofParts (negative : Bool)
    (small : magnitude < 2 ^ format.magnitudeBits) :
    (ofParts negative magnitude : Binary format).isNegative = negative := by
  rw [isNegative_eq, toNat_ofParts negative small]
  cases negative with
  | false => simpa using small
  | true => simp

@[simp] theorem magnitude_ofParts (negative : Bool)
    (small : magnitude < 2 ^ format.magnitudeBits) :
    (ofParts negative magnitude : Binary format).magnitude = magnitude := by
  rw [Binary.magnitude, toNat_ofParts negative small, Nat.one_shiftLeft]
  cases negative with
  | false => simp [Nat.mod_eq_of_lt small]
  | true => simp [Nat.mod_eq_of_lt small]

/-! ## The number that a finite datum denotes -/

def value (datum : Binary format) : ℚ :=
  signed datum.isNegative (datum.significand * 2 ^ datum.unitExponent)

theorem value_eq (datum : Binary format) :
    datum.value = signed datum.isNegative (format.value datum.magnitude) := by
  simp only [value, Format.value, Format.units, Format.significand, significand,
    unitExponent, exponentField, fraction, Nat.one_shiftLeft, Nat.shiftRight_eq_div_pow]
  rw [zpow_add₀ two_ne_zero, Int.ofNat_eq_natCast, zpow_natCast]
  push_cast
  congr 1
  ring

theorem value_eq_zero_iff (datum : Binary format) :
    datum.value = 0 ↔ datum.magnitude = 0 := by
  have zero : signed datum.isNegative 0 = 0 := by simp [signed]
  rw [value_eq, ← zero, (signed_injective _).eq_iff, ← format.value_zero,
    format.value_strictMono.injective.eq_iff]

theorem isFinite_iff :
    datum.isFinite = true ↔ datum.magnitude < format.infinity := by
  simp [isFinite]

theorem even_significand (proper : format.Proper) (datum : Binary format) :
    Even datum.significand ↔ Even datum.magnitude := by
  have two : 2 ∣ 2 ^ format.fractionBits :=
    dvd_pow_self 2 (by have := proper.fractionBits; omega)
  have field := Nat.mod_eq_zero_of_dvd two
  have last := Nat.mod_mod_of_dvd datum.magnitude two
  rw [Nat.even_iff, Nat.even_iff, significand, fraction, Nat.one_shiftLeft]
  split <;> omega

/-- A finite datum that no other finite datum is nearer to, and whose significand is
even where another one is as near. -/
structure IsNearest (datum : Binary format) (number : ℚ) : Prop where
  finite : datum.isFinite = true
  nearest : ∀ other : Binary format, other.isFinite = true →
    |datum.value - number| ≤ |other.value - number|
  even : ∀ other : Binary format, other.isFinite = true → other.value ≠ datum.value →
    |other.value - number| = |datum.value - number| → Even datum.significand

theorem IsNearest.value_eq {number : ℚ} (nearest : datum.IsNearest number)
    (finite : other.isFinite = true) (exact : other.value = number) :
    datum.value = number := by
  have none := nearest.nearest other finite
  rw [exact, sub_self, abs_zero, abs_nonpos_iff, sub_eq_zero] at none
  exact none

/-! ## Distances -/

variable {number : ℚ} {negative : Bool}

theorem distance_same (datum : Binary format) (sign : datum.isNegative = negative) :
    |datum.value - signed negative number| =
      |format.value datum.magnitude - number| := by
  rw [value_eq, sign]
  cases negative with
  | false => rfl
  | true =>
      simp only [signed, if_true]
      rw [neg_sub_neg, abs_sub_comm]

theorem distance_opposite (sign : datum.isNegative ≠ negative)
    (nonneg : 0 ≤ number) :
    |datum.value - signed negative number| =
      format.value datum.magnitude + number := by
  have positive := format.value_nonneg datum.magnitude
  obtain rfl : negative = !datum.isNegative := by
    cases negative <;> simpa using sign
  rw [value_eq]
  cases datum.isNegative with
  | false =>
      change |format.value datum.magnitude - -number| = _
      rw [sub_neg_eq_add, abs_of_nonneg (by linarith)]
  | true =>
      change |-format.value datum.magnitude - number| = _
      rw [abs_of_nonpos (by linarith), neg_sub, sub_neg_eq_add, add_comm]

theorem distance_le (datum : Binary format) (negative : Bool) (nonneg : 0 ≤ number) :
    |format.value datum.magnitude - number| ≤
      |datum.value - signed negative number| := by
  have positive := format.value_nonneg datum.magnitude
  by_cases sign : datum.isNegative = negative
  · rw [distance_same datum sign]
  · rw [distance_opposite sign nonneg, abs_le]
    constructor <;> linarith

/-! ## The nearest datum -/

theorem exists_of_lt (negative : Bool) (inside : magnitude < format.infinity) :
    ∃ other : Binary format, other.isFinite = true ∧ other.isNegative = negative ∧
      other.magnitude = magnitude := by
  have small := inside.trans format.infinity_lt
  have same := magnitude_ofParts negative small
  refine ⟨ofParts negative magnitude, ?_, isNegative_ofParts negative small, same⟩
  rwa [isFinite_iff, same]

theorem nearestEven_of_isNearest (proper : format.Proper)
    (nearest : datum.IsNearest (signed datum.isNegative number)) :
    NearestEven format.value format.infinity number datum.magnitude := by
  refine ⟨isFinite_iff.mp nearest.finite, fun index inside => ?_,
    fun index inside different same => ?_⟩
  · obtain ⟨other, finite, sign, rfl⟩ := exists_of_lt datum.isNegative inside
    rw [← distance_same datum rfl, ← distance_same other sign]
    exact nearest.nearest other finite
  · obtain ⟨other, finite, sign, rfl⟩ := exists_of_lt datum.isNegative inside
    rw [← distance_same other sign, ← distance_same datum rfl] at same
    refine (even_significand proper datum).mp (nearest.even other finite ?_ same)
    intro equal
    rw [value_eq, value_eq, sign] at equal
    exact different (format.value_strictMono.injective (signed_injective _ equal))

theorem isNearest_of_nearestEven (proper : format.Proper) (nonneg : 0 ≤ number)
    (nearest : NearestEven format.value format.infinity number datum.magnitude) :
    datum.IsNearest (signed datum.isNegative number) := by
  refine ⟨isFinite_iff.mpr nearest.inside, fun other finite => ?_,
    fun other finite different same => ?_⟩
  · rw [distance_same datum rfl]
    exact (nearest.nearest _ (isFinite_iff.mp finite)).trans
      (distance_le other _ nonneg)
  · have inside := isFinite_iff.mp finite
    have below := distance_le other datum.isNegative nonneg
    rw [same, distance_same datum rfl] at below
    have tied := le_antisymm below (nearest.nearest _ inside)
    refine (even_significand proper datum).mpr (nearest.even _ inside ?_ tied)
    intro equal
    apply different
    by_cases sign : other.isNegative = datum.isNegative
    · rw [value_eq, value_eq, sign, equal]
    · -- Data of both signs are as near only where both are zero.
      rw [distance_opposite sign nonneg, distance_same datum rfl, equal] at same
      have zero := nearest.nearest 0 proper.infinity_pos
      rw [← same, format.value_zero, zero_sub, abs_neg, abs_of_nonneg nonneg] at zero
      have positive := format.value_nonneg datum.magnitude
      have none : format.value datum.magnitude = 0 := by linarith
      rw [value_eq, value_eq, equal, none]
      cases other.isNegative <;> cases datum.isNegative <;> rfl

theorem isInfinite_ofParts (negative : Bool)
    (small : magnitude < 2 ^ format.magnitudeBits) :
    (ofParts negative magnitude : Binary format).isInfinite = true ↔
      magnitude = format.infinity := by
  rw [isInfinite, magnitude_ofParts negative small, beq_iff_eq]

theorem isNaN_ofParts (negative : Bool)
    (small : magnitude < 2 ^ format.magnitudeBits) :
    (ofParts negative magnitude : Binary format).isNaN = true ↔
      format.infinity < magnitude := by
  rw [isNaN, magnitude_ofParts negative small, decide_eq_true_eq]

/-- The data with the sign of the number that are nearest to it are those with the
magnitude that it is rounded to. -/
theorem isNearest_iff_eq_ofParts (proper : format.Proper) (negative : Bool)
    (nonneg : 0 ≤ number)
    (nearest : NearestEven format.value format.infinity number magnitude)
    (other : Binary format) :
    other.isNegative = negative ∧ other.IsNearest (signed negative number) ↔
      other = ofParts negative magnitude := by
  have small := nearest.inside.trans format.infinity_lt
  have sign := isNegative_ofParts negative small
  have same := magnitude_ofParts negative small
  constructor
  · rintro ⟨rfl, otherNearest⟩
    refine ext_parts sign.symm ?_
    rw [same]
    exact NearestEven.unique format.value_strictMono
      (nearestEven_of_isNearest proper otherNearest) nearest
  · rintro rfl
    refine ⟨sign, ?_⟩
    rw [← same] at nearest
    have found := isNearest_of_nearestEven proper nonneg nearest
    rwa [sign] at found

end Binary

end NumericFields.Floating
