import NumericFields.Proofs.Integer.Refusal
import NumericFields.Proofs.Records

/-!
# Room in the register

While digits are gathered the weight stays within the greatest value of the kind and the
value within its magnitude limit, both words of 64 bits.  One more digit makes numbers of
at most ten times that, far below what the register holds.  So an overflow is always a
comparison with a bound of the kind, and what passes the comparisons is in the range that
the closing conversions expect.
-/

namespace NumericFields.Integer

theorem Register.unsigned?_of_small {number : Nat} (small : number < 2 ^ 68) :
    unsigned? number = some number ∧ number < 2 ^ 68 :=
  ⟨unsigned?_eq_some (small.trans (by decide)), small⟩

namespace Accumulator

structure Holds (kind : Kind) (taken : Bytes) (sum : Accumulator) : Prop where
  digits : ∃ run, taken = Decimal.text run ∧ sum.value = Decimal.value run
  count : sum.count = taken.length
  weight : sum.weight = 10 ^ (taken.length - 1)
  weight_le : sum.weight ≤ kind.positiveMax
  value_le : sum.value ≤ kind.magnitudeLimit

/-- With one more digit the register refuses no product and no sum, and each of them is
below `2 ^ 68`. -/
structure Roomy (kind : Kind) (sum : Accumulator) : Prop where
  weight : Register.mul? sum.weight 10 = some (sum.weight * 10) ∧ sum.weight * 10 < 2 ^ 68
  term : ∀ (digit : Digit) (weight : Nat), sum.nextWeight kind = .ok weight →
    Register.mul? digit.val weight = some (digit.val * weight) ∧
      digit.val * weight < 2 ^ 68
  candidate : ∀ (digit : Digit) (weight : Nat), sum.nextWeight kind = .ok weight →
    Register.add? sum.value (digit.val * weight) = some (sum.value + digit.val * weight) ∧
      sum.value + digit.val * weight < 2 ^ 68

theorem gather_eq_ok_iff {kind : Kind} {taken : Bytes} {sum : Accumulator} :
    gather kind taken = .ok sum ↔
      ∃ run, taken = Decimal.text run ∧ kind.Fits run ∧ sum = ofDigits run := by
  constructor
  · intro gathered
    cases Decimal.shape taken with
    | empty =>
        cases gathered
        exact ⟨[], rfl, kind.fits_nil, rfl⟩
    | digits run written =>
        rw [gather_text] at gathered
        split at gathered
        · next fits => exact ⟨run, rfl, fits, (Except.ok.inj gathered).symm⟩
        · contradiction
    | stray front stray run =>
        rw [gather_stray kind front stray] at gathered
        contradiction
  · rintro ⟨run, rfl, fits, rfl⟩
    rw [gather_text, if_pos fits]

section Gathered

variable {kind : Kind} {run : List Digit} (fits : kind.Fits run)

include fits

theorem weight_ofDigits_le : (ofDigits run).weight ≤ kind.positiveMax := by
  have room := kind.capacity_pos
  have short := fits.1
  exact (kind.lt_capacity_iff _).mp (by omega)

theorem holds_ofDigits : (ofDigits run).Holds kind (Decimal.text run) where
  digits := ⟨run, rfl, rfl⟩
  count := (Decimal.length_text run).symm
  weight := by rw [Decimal.length_text, ofDigits]
  weight_le := weight_ofDigits_le fits
  value_le := fits.2

theorem term_le (digit : Digit) {weight : Nat}
    (next : (ofDigits run).nextWeight kind = .ok weight) :
    digit.val * weight ≤ 9 * kind.positiveMax := by
  rw [nextWeight_ofDigits fits.1] at next
  split at next
  · next room =>
      obtain rfl := Except.ok.inj next
      exact Nat.mul_le_mul (by omega) ((kind.lt_capacity_iff _).mp room)
  · contradiction

theorem roomy_ofDigits : (ofDigits run).Roomy kind := by
  have words := And.intro kind.positiveMax_lt kind.magnitudeLimit_lt
  have size : UInt64.size = 2 ^ 64 := rfl
  refine ⟨?_, fun digit weight next => ?_, fun digit weight next => ?_⟩
  · have weightBound := weight_ofDigits_le fits
    exact Register.unsigned?_of_small (by omega)
  · have termBound := term_le fits digit next
    exact Register.unsigned?_of_small (by omega)
  · have termBound := term_le fits digit next
    have valueBound : (ofDigits run).value ≤ kind.magnitudeLimit := fits.2
    exact Register.unsigned?_of_small (by omega)

theorem gather_cons_eq_overflow_iff (byte : UInt8) :
    gather kind (byte :: Decimal.text run) = .error .overflow ↔
      ∃ digit, byte = Digit.byte digit ∧
        (kind.positiveMax < 10 ^ run.length ∨
          kind.magnitudeLimit < Decimal.value run + digit.val * 10 ^ run.length) := by
  cases read : Digit.ofByte? byte with
  | none =>
      have stray : isDigit byte = false := by simp [isDigit, read]
      rw [← List.nil_append (byte :: _), gather_stray kind [] stray, if_pos fits]
      refine iff_of_false (by simp) ?_
      rintro ⟨digit, rfl, -⟩
      simp at read
  | some digit =>
      obtain rfl := Digit.eq_byte_of_ofByte? read
      have refused : gather kind (digit.byte :: Decimal.text run) = .error .overflow ↔
          ¬kind.Fits (digit :: run) := by
        rw [← Decimal.text_cons, gather_text]
        split
        · next fits => simp [fits]
        · next excess => simp [excess]
      have weight :
          kind.capacity < run.length + 1 ↔ kind.positiveMax < 10 ^ run.length := by
        rw [Nat.lt_succ_iff, ← Nat.not_lt, kind.lt_capacity_iff, Nat.not_le]
      rw [refused, Kind.not_fits_iff, List.length_cons, weight, Decimal.value_cons,
        Nat.add_comm]
      constructor
      · exact fun excess => ⟨digit, rfl, excess⟩
      · rintro ⟨digit', same, excess⟩
        obtain rfl : digit = digit' := by simpa using congrArg Digit.ofByte? same
        exact excess

end Gathered

end Accumulator

/-! ## Behind the digits -/

theorem applySign_eq_overflow_iff {kind : Kind} {magnitude : Nat}
    (small : magnitude ≤ kind.magnitudeLimit) (negative : Bool) :
    applySign kind negative magnitude = .error .overflow ↔
      negative = false ∧ kind.positiveMax < magnitude := by
  simp only [applySign, signed?_magnitude small, neg?_magnitude small]
  cases negative with
  | true => simp
  | false => simp

theorem admits_of_read {kind : Kind} {text : Bytes} {number : Int}
    (accepted : read kind text = .ok number) : kind.Admits number := by
  by_cases nonempty : text = []
  · subst nonempty
    have unsigned : read kind [] = applySign kind (Sign.isNegative none) 0 := by
      rcases kind with ⟨width, _ | _⟩ <;> rfl
    have allowed : kind.AllowsSign none := fun _ => rfl
    rw [unsigned] at accepted
    rcases applySign_eq allowed (Nat.zero_le _) with ⟨admits, applied⟩ | ⟨-, applied⟩
    · rw [applied] at accepted
      rwa [← Except.ok.inj accepted]
    · rw [applied] at accepted
      contradiction
  · obtain ⟨sign, digits, -, -, -, -, -, admits⟩ :=
      (read_eq_ok_iff nonempty number).mp accepted
    exact admits

theorem Reader.converts (reader : Reader) {number : Int}
    (admits : reader.kind.Admits number) :
    (reader.target.2.ofInt? number).isSome = true := by
  obtain ⟨toInt, exact, -⟩ := reader.exists_exact
  rw [← reader.kind_target] at admits
  obtain ⟨value, converted, -⟩ := Option.map_eq_some_iff.mp (exact number admits)
  rw [converted]
  rfl

/-- While text is gathered the accumulator holds the digits taken so far within the bounds
of the kind, and the next step refuses a digit only for its weight or for the value with
it: neither the register nor, behind the digits, the sign and the closing conversions of
the readers ever refuse a number of their own accord. -/
theorem only_bounds_overflow :
    (∀ (kind : Kind) (taken : Bytes) (sum : Accumulator),
      Accumulator.gather kind taken = .ok sum →
        sum.Holds kind taken ∧ sum.Roomy kind ∧
        (∀ byte, Accumulator.gather kind (byte :: taken) = sum.push kind byte ∧
          (sum.push kind byte = .error .overflow ↔
            ∃ digit, byte = Digit.byte digit ∧
              (kind.positiveMax < 10 ^ taken.length ∨
                kind.magnitudeLimit < sum.value + digit.val * 10 ^ taken.length))) ∧
        Register.signed? (Int.ofNat sum.value) = some (sum.value : Int) ∧
        Register.neg? sum.value = some (-(sum.value : Int)) ∧
        ∀ negative, applySign kind negative sum.value = .error .overflow ↔
          negative = false ∧ kind.positiveMax < sum.value) ∧
    (∀ (kind : Kind) (text : Bytes) (number : Int),
      read kind text = .ok number → kind.Admits number) ∧
    ∀ reader : Reader,
      (∀ (text : Bytes) (number : Int), read reader.kind text = .ok number →
        (reader.target.2.ofInt? number).isSome = true) ∧
      ∀ view, reader.outcome view = readView reader.kind view := by
  refine ⟨fun kind taken sum gathered => ?_, fun kind text number => admits_of_read,
    fun reader => ⟨fun text number accepted => reader.converts (admits_of_read accepted),
      reader.outcome_eq⟩⟩
  have step (byte : UInt8) :
      Accumulator.gather kind (byte :: taken) = sum.push kind byte := by
    rw [Accumulator.gather_cons, gathered]
    rfl
  obtain ⟨run, rfl, fits, rfl⟩ := Accumulator.gather_eq_ok_iff.mp gathered
  refine ⟨Accumulator.holds_ofDigits fits, Accumulator.roomy_ofDigits fits,
    fun byte => ⟨step byte, ?_⟩, signed?_magnitude fits.2, neg?_magnitude fits.2,
    applySign_eq_overflow_iff fits.2⟩
  rw [← step, Accumulator.gather_cons_eq_overflow_iff fits, Decimal.length_text]
  rfl

/-- The last 19 digits of the greatest word leave room for a one in front of them and not
for a two, and the least signed word is held by its type. -/
theorem greatest_word_gathered :
    let tail : Bytes :=
      Decimal.text [8, 4, 4, 6, 7, 4, 4, 0, 7, 3, 7, 0, 9, 5, 5, 1, 6, 1, 5]
    let sum : Accumulator := ⟨19, 10 ^ 18, 8446744073709551615⟩
    let least : Bytes :=
      Sign.minus.byte ::
        Decimal.text [9, 2, 2, 3, 3, 7, 2, 0, 3, 6, 8, 5, 4, 7, 7, 5, 8, 0, 8]
    Accumulator.gather ⟨.w64, .unsigned⟩ tail = .ok sum ∧
      sum.Roomy ⟨.w64, .unsigned⟩ ∧
      sum.push ⟨.w64, .unsigned⟩ 0x32 = .error .overflow ∧
      read ⟨.w64, .signed⟩ least = .ok (-2 ^ 63) ∧
      Kind.Admits ⟨.w64, .signed⟩ (-2 ^ 63) ∧
      (Reader.int64.target.2.ofInt? (-2 ^ 63)).isSome = true := by
  have gathered : Accumulator.gather ⟨.w64, .unsigned⟩
      (Decimal.text [8, 4, 4, 6, 7, 4, 4, 0, 7, 3, 7, 0, 9, 5, 5, 1, 6, 1, 5]) =
        .ok ⟨19, 10 ^ 18, 8446744073709551615⟩ := by
    rfl
  have accepted : read ⟨.w64, .signed⟩ (Sign.minus.byte ::
      Decimal.text [9, 2, 2, 3, 3, 7, 2, 0, 3, 6, 8, 5, 4, 7, 7, 5, 8, 0, 8]) =
        .ok (-2 ^ 63) := by
    rfl
  obtain ⟨bounded, admitted, converted⟩ := only_bounds_overflow
  obtain ⟨-, roomy, steps, -⟩ := bounded _ _ _ gathered
  refine ⟨gathered, roomy, (steps 0x32).2.mpr ⟨2, by decide, .inr (by decide)⟩, accepted,
    admitted _ _ _ accepted, (converted .int64).1 _ _ accepted⟩

end NumericFields.Integer
