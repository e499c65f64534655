import NumericFields.Proofs.Floating.Datum
import NumericFields.Proofs.Floating.LongestPrefix
import NumericFields.Proofs.Floating.Rounding

/-!
# Reading at a precision

The number that a numeral writes is rounded once, to the precision of the target.
It overflows from the threshold of that precision on; below it the datum is the
nearest one, with the sign that the literal was written with.
-/

namespace NumericFields.Floating

/-- The number that a numeral writes: its whole part and its fraction, times a power
of ten. -/
def Numeral.value (numeral : Numeral) : ℚ :=
  (Decimal.value numeral.whole +
      Decimal.value (numeral.fraction.getD []) /
        10 ^ (numeral.fraction.getD []).length) *
    10 ^ numeral.exponent.elim 0 Exponent.value

theorem Numeral.value_eq (numeral : Numeral) :
    numeral.value = numeral.coefficient * 10 ^ numeral.scale := by
  have ten : (10 : ℚ) ≠ 0 := by norm_num
  rw [value, coefficient, scale, Decimal.value_append, zpow_sub₀ ten,
    Int.ofNat_eq_natCast, zpow_natCast]
  push_cast
  field_simp

theorem Numeral.value_nonneg (numeral : Numeral) : 0 ≤ numeral.value := by
  unfold value
  positivity

variable {format : Format} {number : ℚ} {magnitude : ℕ}

/-- What a number is read as at a precision that overflows from the threshold on. -/
structure ReadNearest (threshold : ℚ) (negative : Bool) (number : ℚ)
    (result : Except Failure (Binary format)) : Prop where
  overflow : result = .error .overflow ↔ threshold ≤ |number|
  nearest : |number| < threshold → ∃ datum, result = .ok datum ∧
    ∀ other : Binary format,
      other.isNegative = negative ∧ other.IsNearest number ↔ other = datum

def ReadWord (negative : Bool) (name : Word)
    (result : Except Failure (Binary format)) : Prop :=
  ∃ datum, result = .ok datum ∧
    match name with
    | .infinity | .inf => datum.isInfinite = true ∧ datum.isNegative = negative
    | .nan => datum.isNaN = true

theorem Rounded.isInfinite_ofParts (rounded : Rounded format number magnitude)
    (negative : Bool) :
    (Binary.ofParts negative magnitude : Binary format).isInfinite = true ↔
      format.threshold ≤ number :=
  (Binary.isInfinite_ofParts negative
    (rounded.le_infinity.trans_lt format.infinity_lt)).trans rounded.eq_infinity_iff

theorem readNearest_of_rounded (proper : format.Proper) (negative : Bool)
    (nonneg : 0 ≤ number) (rounded : Rounded format number magnitude) :
    ReadNearest format.threshold negative (signed negative number)
      (if format.threshold ≤ number then .error .overflow
      else .ok (.ofParts negative magnitude : Binary format)) := by
  constructor
  · rw [abs_signed negative nonneg]
    split <;> simp_all
  · rw [abs_signed negative nonneg]
    intro near
    rw [if_neg (not_le.mpr near)]
    exact ⟨_, rfl, Binary.isNearest_iff_eq_ofParts proper negative nonneg
      (rounded.nearest near)⟩

theorem readWord_ofWord (proper : format.Proper) (negative : Bool) (name : Word) :
    ReadWord negative name (.ok (.ofWord negative name : Binary format)) := by
  refine ⟨_, rfl, ?_⟩
  have small := format.infinity_lt
  have infinite :
      (Binary.ofParts negative format.infinity : Binary format).isInfinite = true :=
    (Binary.isInfinite_ofParts negative small).mpr rfl
  have sign :
      (Binary.ofParts negative format.infinity : Binary format).isNegative = negative :=
    Binary.isNegative_ofParts negative small
  cases name with
  | infinity => exact ⟨infinite, sign⟩
  | inf => exact ⟨infinite, sign⟩
  | nan =>
      exact (Binary.isNaN_ofParts negative proper.notANumber_lt).mpr
        format.infinity_lt_notANumber

theorem result_parse_of_spelled {text : Bytes} {found : LiteralPrefix}
    {literal : Literal}
    (scanned : LiteralPrefix.find? text = some found)
    (spelled : literal.Spelled found.text)
    (format : Format) :
    (parse (.binary format) (some text)).result =
      if literal.isFinite && (Binary.ofLiteral literal : Binary format).isInfinite then
        .error .overflow
      else
        .ok (.ofLiteral literal) := by
  obtain ⟨-, same, spelledSame, finite⟩ := LiteralPrefix.longest_of_find? scanned
  obtain rfl := Literal.eq_of_spelled spelledSame spelled
  have nonempty : text ≠ [] := by
    rintro rfl
    contradiction
  rw [result_parse_eq_read _ nonempty]
  simp only [read, scanned, Target.binary, Literal.read?_of_spelled spelled, finite]
  rfl

section Spelled

variable {text : Bytes} {found : LiteralPrefix} {literal : Literal}

theorem exists_rounded_of_numeral (proper : format.Proper)
    (scanned : LiteralPrefix.find? text = some found)
    (spelled : literal.Spelled found.text)
    {numeral : Numeral} (body : literal.body = .numeral numeral) :
    ∃ magnitude, Rounded format numeral.value magnitude ∧
      (parse (.binary format) (some text)).result =
        if format.threshold ≤ numeral.value then .error .overflow
        else .ok (.ofParts literal.isNegative magnitude) := by
  have rounded := Rounding.rounded_ofDecimal proper numeral.coefficient numeral.scale
  rw [← numeral.value_eq] at rounded
  refine ⟨_, rounded, ?_⟩
  rw [result_parse_of_spelled scanned spelled]
  simp only [Literal.isFinite, Binary.ofLiteral, body, Bool.true_and, Binary.ofNumeral,
    rounded.isInfinite_ofParts]

theorem result_parse_of_word (scanned : LiteralPrefix.find? text = some found)
    (spelled : literal.Spelled found.text)
    {name : Word} (body : literal.body = .word name) (format : Format) :
    (parse (.binary format) (some text)).result =
      .ok (.ofWord literal.isNegative name) := by
  rw [result_parse_of_spelled scanned spelled]
  simp only [Literal.isFinite, Binary.ofLiteral, body, Bool.false_and]
  rfl

theorem readNearest_of_numeral (proper : format.Proper)
    (scanned : LiteralPrefix.find? text = some found)
    (spelled : literal.Spelled found.text)
    {numeral : Numeral} (body : literal.body = .numeral numeral) :
    ReadNearest format.threshold literal.isNegative
      (signed literal.isNegative numeral.value)
      (parse (.binary format) (some text)).result := by
  obtain ⟨magnitude, rounded, read⟩ :=
    exists_rounded_of_numeral proper scanned spelled body
  rw [read]
  exact readNearest_of_rounded proper literal.isNegative numeral.value_nonneg rounded

theorem readWord_of_word (proper : format.Proper)
    (scanned : LiteralPrefix.find? text = some found)
    (spelled : literal.Spelled found.text)
    {name : Word} (body : literal.body = .word name) :
    ReadWord literal.isNegative name (parse (.binary format) (some text)).result := by
  rw [result_parse_of_word scanned spelled body]
  exact readWord_ofWord proper literal.isNegative name

/-- A text with a literal in front overflows exactly where the number that it writes
is too large for the precision, and is otherwise read as the datum nearest to that
number, of the sign that was written; words never overflow. -/
theorem parsers_round_to_nearest (scanned : LiteralPrefix.find? text = some found)
    (spelled : literal.Spelled found.text) :
    (∀ numeral, literal.body = .numeral numeral →
      ReadNearest (2 ^ 1024 - 2 ^ 970) literal.isNegative
        (signed literal.isNegative numeral.value) (parseDouble (some text)).result ∧
      ReadNearest (2 ^ 128 - 2 ^ 103) literal.isNegative
        (signed literal.isNegative numeral.value) (parseSingle (some text)).result) ∧
    ∀ name, literal.body = .word name →
      ReadWord literal.isNegative name (parseDouble (some text)).result ∧
      ReadWord literal.isNegative name (parseSingle (some text)).result := by
  rw [← Format.threshold_double, ← Format.threshold_single]
  constructor
  · intro numeral body
    exact ⟨readNearest_of_numeral Format.proper_double scanned spelled body,
      readNearest_of_numeral Format.proper_single scanned spelled body⟩
  · intro name body
    exact ⟨readWord_of_word Format.proper_double scanned spelled body,
      readWord_of_word Format.proper_single scanned spelled body⟩

/-- The text ` -41943042.5e-1,` writes a quarter that lies halfway between two single data,
of which the one with the even significand is read. -/
theorem parsers_round_halfway :
    let text : Bytes := [0x20, 0x2d, 0x34, 0x31, 0x39, 0x34, 0x33, 0x30, 0x34, 0x32, 0x2e,
      0x35, 0x65, 0x2d, 0x31, 0x2c]
    let front : Bytes := [0x2d, 0x34, 0x31, 0x39, 0x34, 0x33, 0x30, 0x34, 0x32, 0x2e, 0x35,
      0x65, 0x2d, 0x31]
    let numeral : Numeral := ⟨[4, 1, 9, 4, 3, 0, 4, 2], some [5],
      some ⟨false, some .minus, [1], by decide⟩, by decide⟩
    LiteralPrefix.find? text = some ⟨front, true⟩ ∧
      Literal.Spelled ⟨some .minus, .numeral numeral⟩ front ∧
      numeral.value = 16777217 / 4 ∧
      ReadNearest (2 ^ 1024 - 2 ^ 970) true (-(16777217 / 4))
        (parseDouble (some text)).result ∧
      ReadNearest (2 ^ 128 - 2 ^ 103) true (-(16777217 / 4))
        (parseSingle (some text)).result ∧
      (parseSingle (some text)).result = .ok ⟨0xca800000⟩ := by
  intro text front numeral
  have scanned : LiteralPrefix.find? text = some ⟨front, true⟩ := by decide
  have spelled : Literal.Spelled ⟨some .minus, .numeral numeral⟩ front :=
    ⟨_, rfl, by decide⟩
  have value : numeral.value = 16777217 / 4 := by
    norm_num [numeral, Numeral.value, Decimal.value, Decimal.shift, Exponent.value]
  obtain ⟨double, single⟩ := (parsers_round_to_nearest scanned spelled).1 numeral rfl
  rw [value] at double single
  exact ⟨scanned, spelled, value, double, single, by decide⟩

end Spelled

end NumericFields.Floating
