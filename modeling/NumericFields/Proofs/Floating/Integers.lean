import NumericFields.Proofs.Floating.Precision
import NumericFields.Proofs.Integer.Reader

/-!
# Integers as floating-point numbers

The text of an integer, a sign and a run of digits, is a literal as a whole and writes
the number that the integer readers find in it.  So where one of them accepts it, each
precision reads the datum nearest to that number, and the number itself as far as a
significand has room for it.  In the other direction a signed reader has nothing to
object to in such a text but its size.
-/

namespace NumericFields.Floating

structure Represents {format : Format} (limit : ℤ) (text : Bytes) (number : ℤ)
    (datum : Binary format) : Prop where
  nearest : datum.IsNearest number
  sign : datum.isNegative = true ↔ text.head? = some Sign.minus.byte
  exact : |number| ≤ limit → datum.value = number

structure ReadAs (text : Bytes) (number : ℤ) : Prop where
  whole : LiteralPrefix.find? text = some ⟨text, true⟩
  double : ∃ datum, (parseDouble (some text)).result = .ok datum ∧
    Represents (2 ^ 53) text number datum
  single : ∃ datum, (parseSingle (some text)).result = .ok datum ∧
    Represents (2 ^ 24) text number datum

/-! ## The literal that an integer is -/

theorem signed_eq_apply (sign : Option Sign) (magnitude : ℕ) :
    signed (Sign.isNegative sign) magnitude = (Sign.apply sign magnitude : ℤ) := by
  simp only [signed, Sign.apply, Sign.isNegative_iff]
  split <;> simp

theorem abs_apply (sign : Option Sign) (magnitude : ℕ) :
    |Sign.apply sign magnitude| = magnitude := by
  rw [Sign.apply]
  split <;> simp

section Digits

variable {digits : List Digit}

def Numeral.ofDigits (digits : List Digit) (written : digits ≠ []) : Numeral :=
  ⟨digits, none, none, fun none => written none.1⟩

theorem Numeral.value_ofDigits (written : digits ≠ []) :
    (ofDigits digits written).value = Decimal.value digits := by
  simp [value, ofDigits]

theorem Literal.spelled_ofDigits (sign : Option Sign) (written : digits ≠ []) :
    Spelled ⟨sign, .numeral (.ofDigits digits written)⟩
      (Sign.text sign ++ Decimal.text digits) :=
  ⟨Decimal.text digits, by simp [Body.Spelled, Numeral.text, Numeral.ofDigits], rfl⟩

theorem ne_nil_of_find? {sign : Option Sign} {found : LiteralPrefix}
    (scanned : LiteralPrefix.find? (Sign.text sign ++ Decimal.text digits) = some found) :
    digits ≠ [] := by
  rintro rfl
  rcases sign with _ | _ | _ <;> contradiction

end Digits

/-! ## The datum that an integer is read as -/

variable {format : Format} {digits : List Digit}

theorem exists_exact (proper : format.Proper) (negative : Bool) {number : ℕ}
    (small : number ≤ 2 ^ (format.fractionBits + 1)) (near : number < format.threshold) :
    ∃ datum : Binary format,
      datum.isFinite = true ∧ datum.value = signed negative number := by
  obtain ⟨magnitude, same⟩ := proper.exists_value_eq small
  have inside := proper.lt_infinity (same.trans_lt near)
  obtain ⟨datum, finite, sign, rfl⟩ := Binary.exists_of_lt negative inside
  exact ⟨datum, finite, by rw [Binary.value_eq, sign, same]⟩

theorem exists_represents (proper : format.Proper) (sign : Option Sign)
    (written : digits ≠ []) (near : (Decimal.value digits : ℚ) < format.threshold) :
    ∃ datum : Binary format,
      (parse (.binary format) (some (Sign.text sign ++ Decimal.text digits))).result =
        .ok datum ∧
      Represents (2 ^ (format.fractionBits + 1)) (Sign.text sign ++ Decimal.text digits)
        (Sign.apply sign (Decimal.value digits)) datum := by
  have spelled := Literal.spelled_ofDigits sign written
  have reading := readNearest_of_numeral proper (LiteralPrefix.find?_of_spelled spelled)
    spelled rfl
  rw [Numeral.value_ofDigits, Literal.isNegative] at reading
  have nonneg : (0 : ℚ) ≤ Decimal.value digits := Nat.cast_nonneg _
  obtain ⟨datum, read, unique⟩ := reading.nearest (by rwa [abs_signed _ nonneg])
  obtain ⟨negative, nearest⟩ := (unique datum).mpr rfl
  rw [signed_eq_apply] at nearest
  -- The number alone does not tell the two zeros apart, the sign that is written does.
  refine ⟨datum, read, nearest, ?_, fun within => ?_⟩
  · rw [negative]
    exact Sign.isNegative_iff_head (Sign.absent_text digits) sign
  · rw [abs_apply] at within
    obtain ⟨other, finite, exact⟩ :=
      exists_exact proper (Sign.isNegative sign) (by exact_mod_cast within) near
    exact nearest.value_eq finite (exact.trans (signed_eq_apply sign _))

theorem Format.lt_threshold (wide : 64 ≤ format.maxExponent) {number : ℕ}
    (small : number < UInt64.size) : (number : ℚ) < format.threshold := by
  calc (number : ℚ)
    _ < 2 ^ 64 := by exact_mod_cast small
    _ ≤ 2 ^ format.maxExponent := pow_le_pow_right₀ one_le_two wide
    _ ≤ format.threshold := format.le_threshold

theorem readAs_of_readView {kind : Integer.Kind} {text : Bytes} {number : ℤ}
    (read : (Integer.readView kind (some text)).result = .ok number) :
    ReadAs text number := by
  obtain ⟨_, ⟨⟩, sign, digits, rfl, allowed, written, -, rfl, admits⟩ :=
    (Integer.result_readView_eq_ok_iff kind _ number).mp read
  rw [Integer.Kind.admits_apply_iff allowed] at admits
  have small := admits.1.trans_lt kind.magnitudeLimit_lt
  exact ⟨LiteralPrefix.find?_of_spelled (Literal.spelled_ofDigits sign written),
    exists_represents Format.proper_double sign written
      (Format.lt_threshold (by decide) small),
    exists_represents Format.proper_single sign written
      (Format.lt_threshold (by decide) small)⟩

/-- A text in which a reader or a target finds an integer is a literal as a whole, and
both precisions read it as that integer.  A literal that is only a sign and digits is
accepted by every signed reader, or overflows. -/
theorem integers_are_literals (text : Bytes) :
    (∀ (reader : Integer.Reader) (number : ℤ),
      (reader.outcome (some text)).result = .ok number → ReadAs text number) ∧
    (∀ {α : Type u} (target : Integer.Target α) (value : α),
      (Integer.parse target (some text)).result = .ok value →
        ∃ number, (Integer.readView target.kind (some text)).result = .ok number ∧
          target.ofInt? number = some value ∧ ReadAs text number) ∧
    ∀ isFinite, LiteralPrefix.find? text = some ⟨text, isFinite⟩ →
      (∃ sign digits, text = Sign.text sign ++ Decimal.text digits) →
      ∀ reader : Integer.Reader, reader.kind.signedness = .signed →
        (∃ number, (reader.outcome (some text)).result = .ok number) ∨
          (reader.outcome (some text)).result = .error .overflow := by
  refine ⟨fun reader number accepted => ?_, fun target value accepted => ?_,
    fun isFinite scanned spelled reader signed => ?_⟩
  · rw [reader.outcome_eq] at accepted
    exact readAs_of_readView accepted
  · rw [Integer.parse, Outcome.result_convert_eq_ok_iff] at accepted
    obtain ⟨number, read, converted⟩ := accepted
    exact ⟨number, read, converted, readAs_of_readView read⟩
  · have nonempty : text ≠ [] := by
      rintro rfl
      contradiction
    obtain ⟨sign, digits, rfl⟩ := spelled
    rw [reader.result_outcome_some nonempty]
    exact Integer.read_ok_or_overflow (Integer.Kind.allowsSign_of_signed signed sign)
      (ne_nil_of_find? scanned)

theorem halfway_integer_is_literal :
    let halfway : Bytes := [0x2d, 0x31, 0x36, 0x37, 0x37, 0x37, 0x32, 0x31, 0x37]
    let large : Bytes := [0x2b, 0x33, 0x30, 0x30]
    (Integer.Reader.int32.outcome (some halfway)).result = .ok (-16777217) ∧
      ReadAs halfway (-16777217) ∧ LiteralPrefix.find? large = some ⟨large, true⟩ ∧
      ((∃ number, (Integer.Reader.int8.outcome (some large)).result = .ok number) ∨
        (Integer.Reader.int8.outcome (some large)).result = .error .overflow) := by
  have accepted : (Integer.Reader.int32.outcome
      (some [0x2d, 0x31, 0x36, 0x37, 0x37, 0x37, 0x32, 0x31, 0x37])).result =
        .ok (-16777217) := by
    decide
  have scanned : LiteralPrefix.find? [0x2b, 0x33, 0x30, 0x30] =
      some ⟨[0x2b, 0x33, 0x30, 0x30], true⟩ := by
    decide
  exact ⟨accepted, (integers_are_literals.{0} _).1 _ _ accepted, scanned,
    (integers_are_literals.{0} _).2.2 _ scanned ⟨some .plus, [3, 0, 0], rfl⟩ .int8 rfl⟩

end NumericFields.Floating
