import NumericFields.Proofs.Integer.Reader

/-!
# Reading the same text at a wider kind

A wider kind has the greater bounds and reads at least as many digits, so a run
that is gathered at the narrower kind is gathered at the wider one.  The two kinds
then look at the same bytes in the same order, and differ only where the narrower
one has overflowed.
-/

namespace NumericFields.Integer

structure Kind.Within (narrow wide : Kind) : Prop where
  positiveMax : narrow.positiveMax ≤ wide.positiveMax
  magnitudeLimit : narrow.magnitudeLimit ≤ wide.magnitudeLimit

/-- The second kind reads the view with at least the width of the first, and sees the
same sign in it: it has the same signedness, or no signs where none is written. -/
inductive Kind.Widens (narrow wide : Kind) (view : View) : Prop
  | alike (bits : narrow.width.bits ≤ wide.width.bits)
      (same : narrow.signedness = wide.signedness)
  | signless (bits : narrow.width.bits ≤ wide.width.bits)
      (signed : narrow.signedness = .signed) (unsigned : wide.signedness = .unsigned)
      (absent : ∀ text ∈ view, Sign.Absent text)

/-! ## Bounds of two widths -/

namespace Width

variable {narrow wide : Width}

theorem unsignedMax_mono (bits : narrow.bits ≤ wide.bits) :
    narrow.unsignedMax ≤ wide.unsignedMax := by
  rw [unsignedMax, unsignedMax, Nat.one_shiftLeft, Nat.one_shiftLeft]
  exact Nat.sub_le_sub_right (Nat.pow_le_pow_right (by decide) bits) 1

theorem signedMinMagnitude_mono (bits : narrow.bits ≤ wide.bits) :
    narrow.signedMinMagnitude ≤ wide.signedMinMagnitude := by
  rw [signedMinMagnitude, signedMinMagnitude, Nat.one_shiftLeft, Nat.one_shiftLeft]
  exact Nat.pow_le_pow_right (by decide) (by omega)

theorem signedMinMagnitude_le_unsignedMax (bits : narrow.bits ≤ wide.bits) :
    narrow.signedMinMagnitude ≤ wide.unsignedMax := by
  have positive : 0 < narrow.bits := by cases narrow <;> decide
  rw [signedMinMagnitude, unsignedMax, Nat.one_shiftLeft, Nat.one_shiftLeft]
  exact Nat.le_sub_one_of_lt (Nat.pow_lt_pow_right (by decide) (by omega))

theorem signedMax_le_signedMinMagnitude (width : Width) :
    width.signedMax ≤ width.signedMinMagnitude :=
  Nat.sub_le _ 1

end Width

section Kinds

variable {narrow wide : Kind}

theorem Kind.Widens.within {view : View} (widens : narrow.Widens wide view) :
    narrow.Within wide := by
  rcases narrow with ⟨narrow, signedness⟩
  rcases wide with ⟨wide, signedness'⟩
  cases widens with
  | alike bits same =>
      obtain rfl : signedness = signedness' := same
      cases signedness with
      | unsigned => exact ⟨Width.unsignedMax_mono bits, Width.unsignedMax_mono bits⟩
      | signed =>
          have magnitudes := Width.signedMinMagnitude_mono bits
          exact ⟨Nat.sub_le_sub_right magnitudes 1, magnitudes⟩
  | signless bits signed unsigned =>
      obtain rfl : signedness = .signed := signed
      obtain rfl : signedness' = .unsigned := unsigned
      have magnitudes := Width.signedMinMagnitude_le_unsignedMax bits
      exact ⟨narrow.signedMax_le_signedMinMagnitude.trans magnitudes, magnitudes⟩

theorem Kind.Within.capacity (within : narrow.Within wide) :
    narrow.capacity ≤ wide.capacity := by
  by_contra more
  have weight := (narrow.lt_capacity_iff _).mp (Nat.lt_of_not_le more)
  exact lt_irrefl _ ((wide.lt_capacity_iff _).mpr (weight.trans within.positiveMax))

theorem Kind.Within.fits (within : narrow.Within wide) {run : List Digit}
    (fits : narrow.Fits run) : wide.Fits run :=
  ⟨fits.1.trans within.capacity, fits.2.trans within.magnitudeLimit⟩

theorem Kind.Within.admits (within : narrow.Within wide) {sign : Option Sign}
    (allowed : narrow.AllowsSign sign) (allowed' : wide.AllowsSign sign)
    {magnitude : Nat} (admits : narrow.Admits (Sign.apply sign magnitude)) :
    wide.Admits (Sign.apply sign magnitude) := by
  rw [admits_apply_iff allowed] at admits
  rw [admits_apply_iff allowed']
  exact ⟨admits.1.trans within.magnitudeLimit,
    fun positive => (admits.2 positive).trans within.positiveMax⟩

/-! ## The two readings -/

theorem Kind.Within.applySign (within : narrow.Within wide) {sign : Option Sign}
    (allowed : narrow.AllowsSign sign) (allowed' : wide.AllowsSign sign)
    {magnitude : Nat} (small : magnitude ≤ narrow.magnitudeLimit) :
    applySign narrow (Sign.isNegative sign) magnitude = .error .overflow ∨
      applySign narrow (Sign.isNegative sign) magnitude =
        applySign wide (Sign.isNegative sign) magnitude := by
  rcases applySign_eq allowed small with ⟨admits, applied⟩ | ⟨-, applied⟩
  · have small' := small.trans within.magnitudeLimit
    rcases applySign_eq allowed' small' with ⟨-, applied'⟩ | ⟨refused, -⟩
    · exact .inr (applied.trans applied'.symm)
    · exact absurd (within.admits allowed allowed' admits) refused
  · exact .inl applied

theorem Kind.Within.read (within : narrow.Within wide) {text : Bytes}
    (nonempty : text ≠ [])
    (same : splitSign narrow.signedness text = splitSign wide.signedness text) :
    read narrow text = .error .overflow ∨ read narrow text = read wide text := by
  rcases split : splitSign narrow.signedness text with ⟨sign, digits⟩
  have split' := same.symm.trans split
  cases Decimal.shape digits with
  | empty =>
      obtain ⟨first, rest, rfl⟩ := List.exists_cons_of_ne_nil nonempty
      exact .inr ((read_lone split rfl).trans (read_lone split' rfl).symm)
  | digits run written =>
      rw [read_digits split written, read_digits split' written]
      by_cases fits : narrow.Fits run
      · rw [if_pos fits, if_pos (within.fits fits)]
        exact within.applySign (allowsSign_of_split split) (allowsSign_of_split split')
          fits.2
      · exact .inl (if_neg fits)
  | stray front stray run =>
      rw [read_stray split stray, read_stray split' stray]
      by_cases fits : narrow.Fits run
      · exact .inr (by rw [if_pos fits, if_pos (within.fits fits)])
      · exact .inl (by rw [if_neg fits])

theorem Kind.Widens.splitSign {text : Bytes} (widens : narrow.Widens wide (some text)) :
    splitSign narrow.signedness text = splitSign wide.signedness text := by
  cases widens with
  | alike bits same => rw [same]
  | signless bits signed unsigned absent =>
      rw [signed, unsigned]
      exact Sign.take_of_absent (absent text rfl)

theorem Kind.Widens.result_readView {view : View} (widens : narrow.Widens wide view) :
    (readView narrow view).result = .error .overflow ∨
      (readView narrow view).result = (readView wide view).result := by
  rcases view with _ | text
  · exact .inr (by simp [readView, Outcome.reading])
  · by_cases nonempty : text = []
    · subst nonempty
      exact .inr (by simp [readView, Outcome.reading])
    · rw [readView, readView, Outcome.result_reading_some nonempty,
        Outcome.result_reading_some nonempty]
      exact widens.within.read nonempty widens.splitSign

end Kinds

/-- A reader of a wider kind answers what the narrower one does, except where that
overflows.  So a number and a failure of the text itself stay as they are, and what
overflows at the wider kind overflows at the narrower one. -/
theorem widening_cures_only_overflow {narrow wide : Reader} {view : View}
    (widens : narrow.kind.Widens wide.kind view) :
    ((narrow.outcome view).result = .error .overflow ∨
      (narrow.outcome view).result = (wide.outcome view).result) ∧
    (∀ number, (narrow.outcome view).result = .ok number →
      (wide.outcome view).result = .ok number) ∧
    (∀ failure, failure ≠ .overflow → (narrow.outcome view).result = .error failure →
      (wide.outcome view).result = .error failure) ∧
    ((wide.outcome view).result = .error .overflow →
      (narrow.outcome view).result = .error .overflow) := by
  have cured := widens.result_readView
  rw [narrow.outcome_eq, wide.outcome_eq]
  refine ⟨cured, ?_, ?_, ?_⟩
  · intro number accepted
    rcases cured with overflow | same
    · rw [overflow] at accepted
      contradiction
    · rw [← same, accepted]
  · intro failure other failed
    rcases cured with overflow | same
    · rw [overflow] at failed
      exact absurd (Except.error.inj failed).symm other
    · rw [← same, failed]
  · intro failed
    rcases cured with overflow | same
    · exact overflow
    · rw [same, failed]

theorem widening_keeps_greatest_byte :
    Kind.Widens Reader.int8.kind Reader.uint8.kind (some [0x31, 0x32, 0x37]) ∧
      (Reader.uint8.outcome (some [0x31, 0x32, 0x37])).result = .ok 127 := by
  have widens :
      Kind.Widens Reader.int8.kind Reader.uint8.kind (some [0x31, 0x32, 0x37]) :=
    .signless (by decide) rfl rfl (by rintro _ ⟨⟩; exact Sign.absent_cons (by decide))
  exact ⟨widens, (widening_cures_only_overflow widens).2.1 127 rfl⟩

end NumericFields.Integer
