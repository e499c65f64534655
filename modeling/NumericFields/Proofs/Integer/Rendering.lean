import NumericFields.Proofs.Integer.Reader
import NumericFields.Proofs.Text.Runs

/-!
# Numbers written out and read back

A number of a kind is written with a sign that it may have, any number of zeros and
its canonical digits.  Every number is read back without zeros, and with as many as
the capacity of the kind leaves room for; one more is an overflow.  There is no other
spelling of a number that is read.
-/

namespace NumericFields.Integer

/-- The number may be written with the given sign, or none: a minus is for negative
numbers, and for a zero of any kind that has signs. -/
structure Kind.Writes (kind : Kind) (number : Int) (sign : Option Sign) : Prop where
  allowed : kind.AllowsSign sign
  negative : number < 0 → sign = some .minus
  positive : 0 < number → sign ≠ some .minus

def padded (sign : Option Sign) (zeros : Nat) (number : Int) : Bytes :=
  Sign.text sign ++ (List.replicate zeros 0x30 ++ Decimal.render number.natAbs)

def Kind.HasRoom (kind : Kind) (number : Int) (zeros : Nat) : Prop :=
  zeros + (Decimal.digits number.natAbs).length ≤ kind.capacity

instance (kind : Kind) (number : Int) (zeros : Nat) :
    Decidable (kind.HasRoom number zeros) :=
  inferInstanceAs (Decidable (_ ≤ _))

/-- Text is answered with what is made of a number of the kind exactly if it is that
number written out, with no more zeros than there is room for. -/
structure RoundTrips {α : Type u} (kind : Kind) (toTarget? : Int → Option α)
    (answer : View → Except Failure α) : Prop where
  written : ∀ number, kind.Admits number →
    kind.HasRoom number 0 ∧ ∃ sign, kind.Writes number sign
  padded : ∀ number sign zeros, kind.Admits number → kind.Writes number sign →
    answer (some (padded sign zeros number)) =
      if kind.HasRoom number zeros then
        (toTarget? number).elim (.error .overflow) .ok
      else
        .error .overflow
  only : ∀ view value, answer view = .ok value →
    ∃ number sign zeros, toTarget? number = some value ∧ kind.Admits number ∧
      kind.Writes number sign ∧ kind.HasRoom number zeros ∧
      view = some (Integer.padded sign zeros number)

theorem padded_eq (sign : Option Sign) (zeros : Nat) (number : Int) :
    padded sign zeros number =
      Sign.text sign ++
        Decimal.text (List.replicate zeros 0 ++ Decimal.digits number.natAbs) := by
  rw [padded, Decimal.render, Decimal.text_append, Decimal.text_replicate_zero]

/-! ## Signs -/

section Signs

variable {kind : Kind} {number : Int} {sign : Option Sign}

theorem Kind.Writes.apply_natAbs (writes : kind.Writes number sign) :
    Sign.apply sign number.natAbs = number := by
  have negative := writes.negative
  have positive := writes.positive
  by_cases minus : sign = some .minus
  · rw [Sign.apply, if_pos minus]
    have := positive.mt (not_not.mpr minus)
    omega
  · have := negative.mt minus
    rw [Sign.apply, if_neg minus]
    omega

theorem Kind.writes_apply (allowed : kind.AllowsSign sign) (magnitude : Nat) :
    kind.Writes (Sign.apply sign magnitude) sign := by
  by_cases minus : sign = some .minus
  · subst minus
    refine ⟨allowed, fun _ => rfl, fun positive => ?_⟩
    rw [Sign.apply, if_pos rfl] at positive
    omega
  · refine ⟨allowed, fun negative => ?_, fun _ => minus⟩
    rw [Sign.apply, if_neg minus] at negative
    omega

theorem natAbs_apply (sign : Option Sign) (magnitude : Nat) :
    (Sign.apply sign magnitude).natAbs = magnitude := by
  rw [Sign.apply]
  split <;> simp

theorem Kind.exists_writes (admits : kind.Admits number) :
    ∃ sign, kind.Writes number sign := by
  by_cases negative : number < 0
  · refine ⟨some .minus, fun unsigned => ?_, fun _ => rfl, fun positive => ?_⟩
    · rw [Admits, unsigned] at admits
      omega
    · omega
  · exact ⟨none, fun _ => rfl, fun below => absurd below negative, by simp⟩

end Signs

/-! ## Room for the digits -/

/-- No power of two is a power of ten, so the capacity covers the magnitude of the
signed minimum too. -/
theorem Kind.magnitudeLimit_lt_pow_capacity (kind : Kind) :
    kind.magnitudeLimit < 10 ^ kind.capacity := by
  have bound : kind.positiveMax < 10 ^ kind.capacity := by
    rw [← not_le, ← kind.lt_capacity_iff]
    exact lt_irrefl _
  rcases kind with ⟨width, signedness⟩
  cases signedness with
  | unsigned => exact bound
  | signed =>
      refine lt_of_le_of_ne
        ((Kind.magnitudeLimit_le_succ_positiveMax _).trans bound) fun same => ?_
      have five : 5 ∣ 2 ^ (width.bits - 1) := by
        rw [← Nat.one_shiftLeft]
        exact (dvd_pow (by decide) (Kind.capacity_pos _).ne').trans (dvd_of_eq same.symm)
      exact absurd (Nat.prime_five.dvd_of_dvd_pow five) (by decide)

theorem Kind.length_digits_le_capacity {kind : Kind} {magnitude : Nat}
    (small : magnitude ≤ kind.magnitudeLimit) :
    (Decimal.digits magnitude).length ≤ kind.capacity :=
  (Decimal.length_digits_le_iff kind.capacity_pos).mpr
    (small.trans_lt kind.magnitudeLimit_lt_pow_capacity)

/-! ## Reading a padded number -/

section Padded

variable {kind : Kind} {number : Int} {sign : Option Sign}

theorem Kind.natAbs_le_magnitudeLimit (admits : kind.Admits number)
    (writes : kind.Writes number sign) : number.natAbs ≤ kind.magnitudeLimit := by
  rw [← writes.apply_natAbs, Kind.admits_apply_iff writes.allowed] at admits
  exact admits.1

theorem Kind.fits_padded_iff (zeros : Nat) (small : number.natAbs ≤ kind.magnitudeLimit) :
    kind.Fits (List.replicate zeros 0 ++ Decimal.digits number.natAbs) ↔
      kind.HasRoom number zeros := by
  rw [Kind.Fits, Decimal.value_replicate_append, Decimal.value_digits,
    List.length_append, List.length_replicate]
  exact and_iff_left small

theorem read_padded (admits : kind.Admits number) (writes : kind.Writes number sign)
    (zeros : Nat) :
    read kind (padded sign zeros number) =
      if kind.HasRoom number zeros then .ok number else .error .overflow := by
  have small := Kind.natAbs_le_magnitudeLimit admits writes
  have written : List.replicate zeros 0 ++ Decimal.digits number.natAbs ≠ [] :=
    List.append_ne_nil_of_right_ne_nil _ (Decimal.digits_ne_nil _)
  have absent := Sign.absent_text (List.replicate zeros 0 ++ Decimal.digits number.natAbs)
  rw [padded_eq, read_digits (splitSign_text_append writes.allowed absent) written,
    Decimal.value_replicate_append, Decimal.value_digits]
  refine if_congr (Kind.fits_padded_iff zeros small) ?_ rfl
  have denoted := writes.apply_natAbs
  rcases applySign_eq writes.allowed small with ⟨-, applied⟩ | ⟨refused, -⟩
  · rw [applied, denoted]
  · rw [denoted] at refused
    exact absurd admits refused

theorem padded_ne_nil (sign : Option Sign) (zeros : Nat) (number : Int) :
    padded sign zeros number ≠ [] := by
  intro empty
  rw [padded_eq, List.append_eq_nil_iff] at empty
  have none := List.map_eq_nil_iff.mp empty.2
  exact Decimal.digits_ne_nil _ (List.append_eq_nil_iff.mp none).2

theorem exists_padded_of_denotes {text : Bytes} (denotes : Denotes kind text number) :
    ∃ sign zeros, kind.Writes number sign ∧ kind.HasRoom number zeros ∧
      text = padded sign zeros number := by
  obtain ⟨sign, run, rfl, allowed, written, short, rfl, admits⟩ := denotes
  obtain ⟨zeros, split⟩ := Decimal.exists_replicate_append_digits written
  have writes := Kind.writes_apply allowed (Decimal.value run)
  have small := Kind.natAbs_le_magnitudeLimit admits writes
  rw [← natAbs_apply sign (Decimal.value run)] at split
  refine ⟨sign, zeros, writes, ?_, ?_⟩
  · exact ((Kind.fits_padded_iff zeros small).mp ⟨split ▸ short, by
      rwa [Decimal.value_replicate_append, Decimal.value_digits]⟩)
  · rw [padded_eq, ← split]

end Padded

theorem roundTrips_readView (kind : Kind) :
    RoundTrips kind some fun view => (readView kind view).result where
  written number admits := by
    obtain ⟨sign, writes⟩ := Kind.exists_writes admits
    have small := Kind.natAbs_le_magnitudeLimit admits writes
    refine ⟨?_, sign, writes⟩
    rw [Kind.HasRoom, Nat.zero_add]
    exact Kind.length_digits_le_capacity small
  padded number sign zeros admits writes := by
    rw [readView, Outcome.result_reading_some (padded_ne_nil sign zeros number)]
    exact read_padded admits writes zeros
  only view number accepted := by
    have admits := admits_of_result_readView accepted
    rw [result_readView_eq_ok_iff] at accepted
    obtain ⟨text, rfl, denotes⟩ := accepted
    obtain ⟨sign, zeros, writes, room, rfl⟩ := exists_padded_of_denotes denotes
    exact ⟨number, sign, zeros, rfl, admits, writes, room, rfl⟩

theorem roundTrips_parse {α : Type u} (target : Target α) :
    RoundTrips target.kind target.ofInt? fun view => (parse target view).result where
  written := (roundTrips_readView target.kind).written
  padded number sign zeros admits writes := by
    have read := (roundTrips_readView target.kind).padded number sign zeros admits writes
    simp only [parse, Outcome.convert, read]
    by_cases room : target.kind.HasRoom number zeros
    · simp only [if_pos room, Option.elim_some]
    · simp only [if_neg room]
  only view value accepted := by
    rw [parse, Outcome.result_convert_eq_ok_iff] at accepted
    obtain ⟨number, read, converted⟩ := accepted
    obtain ⟨_, sign, zeros, ⟨⟩, shape⟩ :=
      (roundTrips_readView target.kind).only view number read
    exact ⟨number, sign, zeros, converted, shape⟩

/-- Numbers are written with canonical digits, and every reader and every target reads
them back, with as many zeros in front as there is room for and from no other text. -/
theorem readers_read_back_padded :
    (∀ number, Decimal.Canonical (Decimal.digits number) ∧
      Decimal.value (Decimal.digits number) = number) ∧
    (∀ reader : Reader,
      RoundTrips reader.kind some fun view => (reader.outcome view).result) ∧
    ∀ {α : Type u} (target : Target α),
      RoundTrips target.kind target.ofInt? fun view => (parse target view).result := by
  refine ⟨fun number => ⟨Decimal.canonical_digits number, Decimal.value_digits number⟩,
    fun reader => ?_, roundTrips_parse⟩
  simp only [reader.outcome_eq]
  exact roundTrips_readView reader.kind

theorem least_byte_read_back :
    Reader.int8.kind.Admits (-128) ∧ Reader.int8.kind.Writes (-128) (some .minus) ∧
      (Reader.int8.outcome (some [0x2d, 0x31, 0x32, 0x38])).result = .ok (-128) ∧
      (Reader.int8.outcome (some (padded (some .minus) 1 (-128)))).result =
        .error .overflow := by
  have admits : Reader.int8.kind.Admits (-128) := by
    simp [Kind.Admits, Reader.kind, Width.bits]
  have writes : Reader.int8.kind.Writes (-128) (some .minus) :=
    ⟨fun unsigned => absurd unsigned (by decide), fun _ => rfl, by decide⟩
  have trips := readers_read_back_padded.{0}.2.1 .int8
  have digits : Decimal.digits (-128 : Int).natAbs = [1, 2, 8] := by
    rw [show (-128 : Int).natAbs = 128 from rfl, Decimal.digits,
      Decimal.digitsOnto_of_le (by decide), Decimal.digitsOnto_of_le (by decide),
      Decimal.digitsOnto_of_lt (by decide)]
    rfl
  have text : padded (some .minus) 0 (-128) = [0x2d, 0x31, 0x32, 0x38] := by
    rw [padded_eq, digits]
    rfl
  have full : ¬Reader.int8.kind.HasRoom (-128) 1 := by
    have capacity : ¬3 < Reader.int8.kind.capacity :=
      (Kind.lt_capacity_iff _ 3).not.mpr (by decide)
    rw [Kind.HasRoom, digits]
    exact fun room => capacity room
  refine ⟨admits, writes, ?_, ?_⟩
  · rw [← text, trips.padded _ _ _ admits writes, if_pos (trips.written _ admits).1]
    rfl
  · rw [trips.padded _ _ _ admits writes, if_neg full]

end NumericFields.Integer
