import NumericFields.Integer.Kind
import NumericFields.Proofs.Text.Decimal
import NumericFields.Integer.Accumulator

/-!
# What gathering digits computes

`Kind.Admits` states the range of a kind in powers of two.  Before the sign is
known only the magnitude can be checked, against `magnitudeLimit`; what is left
to check afterwards is that a number without a minus is at most `positiveMax`.

After a run of digits the accumulator is determined by the run alone: it holds
the value of the run and the weight of its first digit.  A run is gathered
exactly if it has no more digits than the kind reads and its value is within the
limit.  A byte that is no digit ends the gathering, unless the run behind it has
ended it before.
-/

namespace NumericFields

/-! ## The range of a kind -/

namespace Integer.Kind

/-- The number of digits that a kind reads, leading zeros counted. -/
def capacity (kind : Kind) : Nat := (Decimal.digits kind.positiveMax).length

def Admits (kind : Kind) (number : Int) : Prop :=
  match kind.signedness with
  | .unsigned => 0 ≤ number ∧ number ≤ 2 ^ kind.width.bits - 1
  | .signed =>
      -2 ^ (kind.width.bits - 1) ≤ number ∧ number ≤ 2 ^ (kind.width.bits - 1) - 1

def AllowsSign (kind : Kind) (sign : Option Sign) : Prop :=
  kind.signedness = .unsigned → sign = none

theorem allowsSign_of_signed {kind : Kind} (signed : kind.signedness = .signed)
    (sign : Option Sign) : kind.AllowsSign sign := by
  intro unsigned
  rw [signed] at unsigned
  contradiction

theorem magnitudeLimit_of_unsigned {kind : Kind}
    (unsigned : kind.signedness = .unsigned) : kind.magnitudeLimit = kind.positiveMax := by
  rw [magnitudeLimit, positiveMax, unsigned]

theorem positiveMax_pos (kind : Kind) : 0 < kind.positiveMax := by
  rcases kind with ⟨width, signedness⟩
  cases signedness <;> cases width <;> decide

theorem positiveMax_lt (kind : Kind) : kind.positiveMax < UInt64.size :=
  lt_of_le_of_lt kind.positiveMax_le_magnitudeLimit kind.magnitudeLimit_lt

theorem lt_capacity_iff (kind : Kind) (places : Nat) :
    places < kind.capacity ↔ 10 ^ places ≤ kind.positiveMax :=
  Decimal.lt_length_digits_iff kind.positiveMax_pos places

theorem capacity_pos (kind : Kind) : 0 < kind.capacity := by
  rw [lt_capacity_iff, pow_zero]
  exact kind.positiveMax_pos

theorem admits_apply_iff {kind : Kind} {sign : Option Sign}
    (allowed : kind.AllowsSign sign) (magnitude : Nat) :
    kind.Admits (Sign.apply sign magnitude) ↔
      magnitude ≤ kind.magnitudeLimit ∧
        (sign ≠ some .minus → magnitude ≤ kind.positiveMax) := by
  rcases kind with ⟨width, signedness⟩
  cases signedness with
  | unsigned =>
      rw [allowed rfl]
      cases width <;>
        simp [Admits, Sign.apply, magnitudeLimit, positiveMax, Width.unsignedMax,
          Width.bits]
  | signed =>
      by_cases minus : sign = some .minus <;> cases width <;>
        simp [Admits, Sign.apply, minus, magnitudeLimit, positiveMax,
          Width.signedMax, Width.signedMinMagnitude, Width.bits] <;>
        omega

end Integer.Kind

/-! ## Runs that fit -/

namespace Integer

def Kind.Fits (kind : Kind) (digits : List Digit) : Prop :=
  digits.length ≤ kind.capacity ∧ Decimal.value digits ≤ kind.magnitudeLimit

instance (kind : Kind) (digits : List Digit) : Decidable (kind.Fits digits) :=
  inferInstanceAs (Decidable (_ ∧ _))

theorem Kind.fits_nil (kind : Kind) : kind.Fits [] :=
  ⟨Nat.zero_le _, Nat.zero_le _⟩

theorem Kind.Fits.of_append {kind : Kind} {front back : List Digit}
    (fits : kind.Fits (front ++ back)) : kind.Fits front ∧ kind.Fits back := by
  obtain ⟨short, small⟩ := fits
  rw [List.length_append] at short
  rw [Decimal.value_append] at small
  have weight : Decimal.value front ≤ Decimal.value front * 10 ^ back.length :=
    Nat.le_mul_of_pos_right _ (by positivity)
  exact ⟨⟨by omega, by omega⟩, by omega, by omega⟩

theorem Kind.Fits.tail {kind : Kind} {digit : Digit} {rest : List Digit}
    (fits : kind.Fits (digit :: rest)) : kind.Fits rest := by
  rw [← List.singleton_append] at fits
  exact fits.of_append.2

namespace Accumulator

def ofDigits (digits : List Digit) : Accumulator :=
  ⟨digits.length, 10 ^ (digits.length - 1), Decimal.value digits⟩

theorem bounded_some (limit number : Nat) :
    bounded limit (some number) =
      if number ≤ limit then .ok number else .error .overflow := rfl

/-! ## One digit -/

theorem nextWeight_ofDigits {kind : Kind} {rest : List Digit}
    (short : rest.length ≤ kind.capacity) :
    nextWeight kind (ofDigits rest) =
      if rest.length < kind.capacity then .ok (10 ^ rest.length)
      else .error .overflow := by
  cases rest with
  | nil => exact (if_pos kind.capacity_pos).symm
  | cons digit rest =>
      rw [List.length_cons] at short ⊢
      have weight : 10 ^ rest.length ≤ kind.positiveMax :=
        (kind.lt_capacity_iff _).mp short
      have bound := kind.positiveMax_lt
      have register : 10 ^ rest.length * 10 < Register.unsignedEnd := by
        have : UInt64.size * 10 < Register.unsignedEnd := by decide
        omega
      simp only [nextWeight, ofDigits, List.length_cons, Nat.add_sub_cancel,
        Nat.add_one_ne_zero, if_false, Register.mul?,
        Register.unsigned?_eq_some register, bounded_some, kind.lt_capacity_iff,
        pow_succ]

theorem nextValue_ofDigits {kind : Kind} {rest : List Digit}
    (room : rest.length < kind.capacity) (fits : kind.Fits rest) (digit : Digit) :
    nextValue kind (ofDigits rest) digit (10 ^ rest.length) =
      if Decimal.value (digit :: rest) ≤ kind.magnitudeLimit then
        .ok (Decimal.value (digit :: rest))
      else
        .error .overflow := by
  have weight : 10 ^ rest.length ≤ kind.positiveMax :=
    (kind.lt_capacity_iff _).mp room
  have term : digit.val * 10 ^ rest.length ≤ 9 * 10 ^ rest.length :=
    Nat.mul_le_mul_right _ (by omega)
  have bounds := And.intro kind.positiveMax_lt kind.magnitudeLimit_lt
  have small := fits.2
  have register : UInt64.size * 10 < Register.unsignedEnd := by decide
  simp only [nextValue, ofDigits, Register.mul?]
  rw [Register.unsigned?_eq_some (by omega), Option.bind_some, Register.add?,
    Register.unsigned?_eq_some (by omega), bounded_some, Nat.add_comm,
    ← Decimal.value_cons]

theorem push_ofDigits {kind : Kind} {rest : List Digit} (fits : kind.Fits rest)
    (digit : Digit) :
    push kind (ofDigits rest) digit.byte =
      if kind.Fits (digit :: rest) then .ok (ofDigits (digit :: rest))
      else .error .overflow := by
  simp only [push, Digit.ofByte?_byte, nextWeight_ofDigits fits.1]
  by_cases room : rest.length < kind.capacity
  · simp only [if_pos room, nextValue_ofDigits room fits]
    by_cases small : Decimal.value (digit :: rest) ≤ kind.magnitudeLimit
    · rw [if_pos small, if_pos ⟨room, small⟩]
      rfl
    · rw [if_neg small, if_neg fun both => small both.2]
  · rw [if_neg room, if_neg fun both => room both.1]

theorem push_stray (kind : Kind) (sum : Accumulator) {byte : UInt8}
    (stray : isDigit byte = false) :
    push kind sum byte = .error (.nonNumeric byte) := by
  rw [isDigit, Option.isSome_eq_false_iff, Option.isNone_iff_eq_none] at stray
  rw [push, stray]

/-! ## Runs of digits -/

theorem gather_text (kind : Kind) (digits : List Digit) :
    gather kind (Decimal.text digits) =
      if kind.Fits digits then .ok (ofDigits digits) else .error .overflow := by
  induction digits with
  | nil =>
      rw [if_pos kind.fits_nil]
      rfl
  | cons digit rest ih =>
      rw [Decimal.text_cons, gather_cons, ih]
      by_cases fits : kind.Fits rest
      · rw [if_pos fits]
        exact push_ofDigits fits digit
      · rw [if_neg fits, if_neg fun longer => fits longer.tail]
        rfl

theorem gather_append_of_error {kind : Kind} {back : Bytes} {failure : Failure}
    (failed : gather kind back = .error failure) (front : Bytes) :
    gather kind (front ++ back) = .error failure := by
  induction front with
  | nil => exact failed
  | cons byte front ih =>
      rw [List.cons_append, gather_cons, ih]
      rfl

theorem gather_stray (kind : Kind) (front : Bytes) {byte : UInt8}
    (stray : isDigit byte = false) (digits : List Digit) :
    gather kind (front ++ byte :: Decimal.text digits) =
      .error (if kind.Fits digits then .nonNumeric byte else .overflow) := by
  apply gather_append_of_error
  rw [gather_cons, gather_text]
  by_cases fits : kind.Fits digits
  · rw [if_pos fits, if_pos fits]
    exact push_stray kind _ stray
  · rw [if_neg fits, if_neg fits]
    rfl

end Accumulator

end Integer

end NumericFields
