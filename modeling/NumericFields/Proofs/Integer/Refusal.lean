import NumericFields.Proofs.Integer.Reader

/-!
# Which failure an integer text is refused with

Bytes are taken from the end of a text, so the run of digits there is judged
first: too long a run, or too great a value, is an overflow whatever stands
before it.  Then comes the byte before the run, and only a text of nothing but
digits is judged by its sign.
-/

namespace NumericFields.Integer

/-- The failures of a kind, each with the views that are refused with it. -/
inductive Refused (kind : Kind) : View → Failure → Prop
  | null : Refused kind none .invalidInput
  | empty : Refused kind (some []) .invalidInput
  | loneSign (sign : Sign) (signed : kind.signedness = .signed) :
      Refused kind (some [sign.byte]) (.nonNumeric sign.byte)
  | excess {text digits : Bytes} {sign : Option Sign} {run : List Digit}
      (split : kind.SplitsSign text sign digits)
      (final : Decimal.FinalRun digits run)
      (excess : kind.capacity < run.length ∨
        kind.magnitudeLimit < Decimal.value run) :
      Refused kind (some text) .overflow
  | stray {text front : Bytes} {sign : Option Sign} {byte : UInt8} {run : List Digit}
      (split : kind.SplitsSign text sign (front ++ byte :: Decimal.text run))
      (final : Decimal.FinalRun (front ++ byte :: Decimal.text run) run)
      (short : run.length ≤ kind.capacity)
      (small : Decimal.value run ≤ kind.magnitudeLimit) :
      Refused kind (some text) (.nonNumeric byte)
  | positive {text : Bytes} {sign : Option Sign} {run : List Digit}
      (split : kind.SplitsSign text sign (Decimal.text run))
      (written : run ≠ []) (short : run.length ≤ kind.capacity)
      (positive : sign ≠ some .minus)
      (large : kind.positiveMax < Decimal.value run)
      (small : Decimal.value run ≤ kind.magnitudeLimit) :
      Refused kind (some text) .overflow

theorem Kind.not_fits_iff {kind : Kind} {run : List Digit} :
    ¬kind.Fits run ↔
      kind.capacity < run.length ∨ kind.magnitudeLimit < Decimal.value run := by
  rw [Kind.Fits, not_and_or, not_le, not_le]

theorem isDigit_of_finalRun {front : Bytes} {byte : UInt8} {run : List Digit}
    (final : Decimal.FinalRun (front ++ byte :: Decimal.text run) run) :
    isDigit byte = false := by
  rcases final.cases_text with whole | ⟨front', byte', stray, same⟩
  · have longer := congrArg List.length whole
    rw [List.length_append, List.length_cons] at longer
    omega
  · have last := (List.append_inj' same rfl).2
    rw [(List.cons.inj last).1]
    exact stray

/-! ## A text is refused as its shape says -/

section Shapes

variable {kind : Kind} {text : Bytes} {sign : Option Sign}

theorem refused_of_lone (split : splitSign kind.signedness text = (sign, []))
    (nonempty : text ≠ []) {failure : Failure}
    (failed : read kind text = .error failure) : Refused kind (some text) failure := by
  have allowed := allowsSign_of_split split
  have joined := text_of_split split
  rw [List.append_nil] at joined
  cases sign with
  | none => exact absurd joined nonempty
  | some sign =>
      have head : text.head? = some sign.byte := by
        rw [joined]
        rfl
      rw [read_lone split head] at failed
      cases failed
      rw [joined]
      cases signedness : kind.signedness with
      | unsigned => exact absurd (allowed signedness) (by simp)
      | signed => exact .loneSign sign signedness

theorem refused_of_digits {run : List Digit}
    (split : splitSign kind.signedness text = (sign, Decimal.text run))
    (written : run ≠ []) {failure : Failure} (failed : read kind text = .error failure) :
    Refused kind (some text) failure := by
  have allowed := allowsSign_of_split split
  rw [read_digits split written] at failed
  by_cases fits : kind.Fits run
  · rw [if_pos fits] at failed
    rcases applySign_eq allowed fits.2 with ⟨admits, applied⟩ | ⟨refused, applied⟩
    · rw [applied] at failed
      contradiction
    · rw [applied] at failed
      cases failed
      simp only [Kind.admits_apply_iff allowed, fits.2, true_and, Classical.not_imp,
        not_le] at refused
      exact .positive (splitSign_eq_iff.mp split) written fits.1 refused.1 refused.2 fits.2
  · rw [if_neg fits] at failed
    cases failed
    exact .excess (splitSign_eq_iff.mp split) (.of_digits run) (Kind.not_fits_iff.mp fits)

theorem refused_of_stray {front : Bytes} {byte : UInt8} {run : List Digit}
    (split : splitSign kind.signedness text =
      (sign, front ++ byte :: Decimal.text run))
    (stray : isDigit byte = false) {failure : Failure}
    (failed : read kind text = .error failure) : Refused kind (some text) failure := by
  have final := Decimal.FinalRun.of_stray front stray run
  rw [read_stray split stray] at failed
  by_cases fits : kind.Fits run
  · rw [if_pos fits] at failed
    cases failed
    exact .stray (splitSign_eq_iff.mp split) final fits.1 fits.2
  · rw [if_neg fits] at failed
    cases failed
    exact .excess (splitSign_eq_iff.mp split) final (Kind.not_fits_iff.mp fits)

theorem refused_of_read (nonempty : text ≠ []) {failure : Failure}
    (failed : read kind text = .error failure) : Refused kind (some text) failure := by
  rcases split : splitSign kind.signedness text with ⟨sign, digits⟩
  cases Decimal.shape digits with
  | empty => exact refused_of_lone split nonempty failed
  | digits run written => exact refused_of_digits split written failed
  | stray front stray run => exact refused_of_stray split stray failed

end Shapes

/-! ## A refused text fails as it should -/

theorem ne_nil_of_split {signedness : Signedness} {text digits : Bytes}
    {sign : Option Sign} (split : splitSign signedness text = (sign, digits))
    (written : digits ≠ []) : text ≠ [] := by
  rintro rfl
  cases signedness <;> cases split <;> contradiction

theorem Kind.ne_nil_of_not_fits {kind : Kind} {run : List Digit}
    (excess : ¬kind.Fits run) : run ≠ [] := by
  rintro rfl
  exact excess kind.fits_nil

theorem ne_nil_of_finalRun {digits : Bytes} {run : List Digit}
    (final : Decimal.FinalRun digits run) (written : run ≠ []) : digits ≠ [] := by
  rintro rfl
  exact written (List.map_eq_nil_iff.mp (List.suffix_nil.mp final.suffix))

theorem read_excess {kind : Kind} {text digits : Bytes} {sign : Option Sign}
    {run : List Digit} (split : splitSign kind.signedness text = (sign, digits))
    (final : Decimal.FinalRun digits run) (excess : ¬kind.Fits run) :
    read kind text = .error .overflow := by
  rcases final.cases_text with rfl | ⟨front, byte, stray, rfl⟩
  · rw [read_digits split (Kind.ne_nil_of_not_fits excess), if_neg excess]
  · rw [read_stray split stray, if_neg excess]

theorem result_of_refused {kind : Kind} {view : View} {failure : Failure}
    (refused : Refused kind view failure) :
    (readView kind view).result = .error failure := by
  cases refused with
  | null => rfl
  | empty => rfl
  | loneSign sign signed =>
      have split : splitSign kind.signedness [sign.byte] = (some sign, []) := by
        rw [signed]
        exact Sign.take_text_append (some sign) Sign.absent_nil
      rw [readView, Outcome.result_reading_some (by simp)]
      exact read_lone split rfl
  | excess split final excess =>
      rw [← splitSign_eq_iff] at split
      rw [← Kind.not_fits_iff] at excess
      have written := ne_nil_of_finalRun final (Kind.ne_nil_of_not_fits excess)
      rw [readView, Outcome.result_reading_some (ne_nil_of_split split written)]
      exact read_excess split final excess
  | stray split final short small =>
      rw [← splitSign_eq_iff] at split
      rw [readView, Outcome.result_reading_some (ne_nil_of_split split (by simp)),
        read_stray split (isDigit_of_finalRun final), if_pos ⟨short, small⟩]
  | positive split written short positive large small =>
      rw [← splitSign_eq_iff] at split
      have allowed := allowsSign_of_split split
      have nonempty := ne_nil_of_split split (by simpa [Decimal.text] using written)
      rw [readView, Outcome.result_reading_some nonempty, read_digits split written,
        if_pos ⟨short, small⟩]
      rcases applySign_eq allowed small with ⟨admits, -⟩ | ⟨-, applied⟩
      · rw [Kind.admits_apply_iff allowed] at admits
        exact absurd (admits.2 positive) (by omega)
      · exact applied

theorem result_readView_eq_error_iff (kind : Kind) (view : View) (failure : Failure) :
    (readView kind view).result = .error failure ↔ Refused kind view failure := by
  constructor
  · intro failed
    rcases view with _ | text
    · cases failed
      exact .null
    · by_cases nonempty : text = []
      · subst nonempty
        cases failed
        exact .empty
      · rw [readView, Outcome.result_reading_some nonempty] at failed
        exact refused_of_read nonempty failed
  · exact result_of_refused

/-- Every reader fails exactly on the views that its kind refuses, with the
failure they are refused with; any other target also overflows on a number that
it refuses to convert. -/
theorem readers_refuse_by_shape (view : View) (failure : Failure) :
    (∀ reader : Reader,
      (reader.outcome view).result = .error failure ↔
        Refused reader.kind view failure) ∧
    ∀ {α : Type u} (target : Target α),
      (parse target view).result = .error failure ↔
        Refused target.kind view failure ∨
          failure = .overflow ∧
            ∃ number, (∃ text ∈ view, Denotes target.kind text number) ∧
              target.ofInt? number = none := by
  constructor
  · intro reader
    rw [reader.outcome_eq]
    exact result_readView_eq_error_iff reader.kind view failure
  · intro α target
    simp only [parse, Outcome.result_convert_eq_error_iff,
      result_readView_eq_error_iff, result_readView_eq_ok_iff]

end NumericFields.Integer
