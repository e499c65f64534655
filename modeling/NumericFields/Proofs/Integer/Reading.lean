import NumericFields.Integer.Parse
import NumericFields.Proofs.Integer.Gathering
import NumericFields.Proofs.Text.Runs

/-!
# What reading an integer computes

Behind the sign a text is a run of digits, has a stray byte before its last run,
or is empty.  `read` is computed here for each of the three; whether a run is
accepted depends only on whether it is gathered and on the number that it and
the sign denote.

A text denotes a number of a kind if it is a sign that the kind allows and a run
of digits within the capacity of the kind, and the number they denote lies in
the range of the kind.  `read` accepts exactly these texts, with that number.
-/

namespace NumericFields

namespace Integer

/-! ## The sign -/

theorem allowsSign_of_split {kind : Kind} {text digits : Bytes} {sign : Option Sign}
    (split : splitSign kind.signedness text = (sign, digits)) :
    kind.AllowsSign sign := by
  intro unsigned
  rw [unsigned] at split
  cases split
  rfl

theorem text_of_split {signedness : Signedness} {text digits : Bytes}
    {sign : Option Sign} (split : splitSign signedness text = (sign, digits)) :
    text = Sign.text sign ++ digits := by
  cases signedness with
  | unsigned =>
      cases split
      rfl
  | signed =>
      have joined := Sign.text_take text
      rw [show Sign.take text = (sign, digits) from split] at joined
      exact joined.symm

/-- The text is a sign that the kind allows, or none, and the rest behind it.  A kind that
has signs goes without only where the text begins with none. -/
structure Kind.SplitsSign (kind : Kind) (text : Bytes) (sign : Option Sign)
    (rest : Bytes) : Prop where
  joined : text = Sign.text sign ++ rest
  allowed : kind.AllowsSign sign
  absent : kind.signedness = .signed → sign = none → Sign.Absent rest

theorem splitSign_eq_iff {kind : Kind} {text rest : Bytes} {sign : Option Sign} :
    splitSign kind.signedness text = (sign, rest) ↔ kind.SplitsSign text sign rest := by
  constructor
  · intro split
    refine ⟨text_of_split split, allowsSign_of_split split, ?_⟩
    rintro signed rfl
    rw [signed] at split
    exact Sign.absent_of_take split
  · rintro ⟨rfl, allowed, absent⟩
    cases signedness : kind.signedness with
    | unsigned =>
        rw [allowed signedness]
        rfl
    | signed =>
        cases sign with
        | none => exact Sign.take_of_absent (absent signedness rfl)
        | some sign => exact Sign.take_byte_cons sign rest

theorem splitSign_text_append {kind : Kind} {sign : Option Sign}
    (allowed : kind.AllowsSign sign) {rest : Bytes} (absent : Sign.Absent rest) :
    splitSign kind.signedness (Sign.text sign ++ rest) = (sign, rest) :=
  splitSign_eq_iff.mpr ⟨rfl, allowed, fun _ _ => absent⟩

theorem signed?_magnitude {kind : Kind} {magnitude : Nat}
    (small : magnitude ≤ kind.magnitudeLimit) :
    Register.signed? (Int.ofNat magnitude) = some (magnitude : Int) := by
  have bound := kind.magnitudeLimit_lt
  have size : (UInt64.size : Int) < Register.signedEnd := by decide
  exact Register.signed?_eq_some (by simp; omega) (by simp; omega)

theorem neg?_magnitude {kind : Kind} {magnitude : Nat}
    (small : magnitude ≤ kind.magnitudeLimit) :
    Register.neg? (magnitude : Int) = some (-(magnitude : Int)) := by
  have bound := kind.magnitudeLimit_lt
  have size : (UInt64.size : Int) < Register.signedEnd := by decide
  exact Register.signed?_eq_some (by omega) (by omega)

theorem applySign_eq {kind : Kind} {sign : Option Sign}
    (allowed : kind.AllowsSign sign) {magnitude : Nat}
    (small : magnitude ≤ kind.magnitudeLimit) :
    (kind.Admits (Sign.apply sign magnitude) ∧
        applySign kind (Sign.isNegative sign) magnitude =
          .ok (Sign.apply sign magnitude)) ∨
      (¬kind.Admits (Sign.apply sign magnitude) ∧
        applySign kind (Sign.isNegative sign) magnitude = .error .overflow) := by
  rw [Kind.admits_apply_iff allowed]
  simp only [small, true_and, applySign, signed?_magnitude small, neg?_magnitude small,
    Sign.apply]
  by_cases minus : sign = some .minus
  · subst minus
    exact .inl ⟨by simp, by simp [Sign.isNegative]⟩
  · have positive : Sign.isNegative sign = false := by simpa [Sign.isNegative] using minus
    by_cases most : magnitude ≤ kind.positiveMax
    · exact .inl ⟨fun _ => most, by simp [positive, minus, most]⟩
    · exact .inr ⟨by simpa [minus] using most, by simp [positive, Nat.lt_of_not_le most]⟩

/-! ## The three shapes of a text -/

theorem read_lone {kind : Kind} {text : Bytes} {sign : Option Sign}
    (split : splitSign kind.signedness text = (sign, [])) {first : UInt8}
    (head : text.head? = some first) :
    read kind text = .error (.nonNumeric first) := by
  cases text with
  | nil => contradiction
  | cons byte rest =>
      obtain rfl := Option.some.inj head
      rw [read, split]

theorem read_of_split {kind : Kind} {text digits : Bytes} {sign : Option Sign}
    (split : splitSign kind.signedness text = (sign, digits)) (written : digits ≠ []) :
    read kind text =
      (Accumulator.gather kind digits).bind fun sum =>
        applySign kind (Sign.isNegative sign) sum.value := by
  simp only [read, split]
  cases digits with
  | nil => contradiction
  | cons first rest =>
      simp only
      cases Accumulator.gather kind (first :: rest) <;> rfl

theorem read_stray {kind : Kind} {text front : Bytes} {sign : Option Sign}
    {byte : UInt8} {run : List Digit}
    (split : splitSign kind.signedness text =
      (sign, front ++ byte :: Decimal.text run))
    (stray : isDigit byte = false) :
    read kind text =
      .error (if kind.Fits run then .nonNumeric byte else .overflow) := by
  rw [read_of_split split (by simp), Accumulator.gather_stray kind front stray]
  rfl

theorem read_digits {kind : Kind} {text : Bytes} {sign : Option Sign}
    {run : List Digit}
    (split : splitSign kind.signedness text = (sign, Decimal.text run))
    (written : run ≠ []) :
    read kind text =
      if kind.Fits run then
        applySign kind (Sign.isNegative sign) (Decimal.value run)
      else
        .error .overflow := by
  rw [read_of_split split (by simpa [Decimal.text] using written),
    Accumulator.gather_text]
  by_cases fits : kind.Fits run
  · rw [if_pos fits, if_pos fits, Except.bind, Accumulator.ofDigits]
  · rw [if_neg fits, if_neg fits, Except.bind]

theorem read_ok_or_overflow {kind : Kind} {sign : Option Sign}
    (allowed : kind.AllowsSign sign) {run : List Digit} (written : run ≠ []) :
    (∃ number, read kind (Sign.text sign ++ Decimal.text run) = .ok number) ∨
      read kind (Sign.text sign ++ Decimal.text run) = .error .overflow := by
  rw [read_digits (splitSign_text_append allowed (Sign.absent_text run)) written]
  by_cases fits : kind.Fits run
  · rw [if_pos fits]
    rcases applySign_eq allowed fits.2 with ⟨-, applied⟩ | ⟨-, applied⟩
    · exact .inl ⟨_, applied⟩
    · exact .inr applied
  · exact .inr (if_neg fits)

/-! ## The texts that denote an integer -/

def Denotes (kind : Kind) (text : Bytes) (number : Int) : Prop :=
  ∃ sign digits, text = Sign.text sign ++ Decimal.text digits ∧
    kind.AllowsSign sign ∧ digits ≠ [] ∧ digits.length ≤ kind.capacity ∧
    number = Sign.apply sign (Decimal.value digits) ∧ kind.Admits number

theorem Denotes.ne_nil {kind : Kind} {text : Bytes} {number : Int}
    (denotes : Denotes kind text number) : text ≠ [] := by
  obtain ⟨sign, digits, rfl, -, written, -⟩ := denotes
  intro empty
  rw [List.append_eq_nil_iff] at empty
  exact written (List.map_eq_nil_iff.mp empty.2)

theorem read_digits_eq_ok_iff {kind : Kind} {text : Bytes} {sign : Option Sign}
    {run : List Digit} (allowed : kind.AllowsSign sign)
    (split : splitSign kind.signedness text = (sign, Decimal.text run))
    (written : run ≠ []) (number : Int) :
    read kind text = .ok number ↔
      run.length ≤ kind.capacity ∧
        number = Sign.apply sign (Decimal.value run) ∧ kind.Admits number := by
  rw [read_digits split written]
  by_cases fits : kind.Fits run
  · rw [if_pos fits]
    rcases applySign_eq allowed fits.2 with ⟨admits, applied⟩ | ⟨refused, applied⟩
    · rw [applied, Except.ok.injEq]
      constructor
      · rintro rfl
        exact ⟨fits.1, rfl, admits⟩
      · rintro ⟨-, rfl, -⟩
        rfl
    · rw [applied]
      constructor
      · intro
        contradiction
      · rintro ⟨-, rfl, admits⟩
        exact absurd admits refused
  · rw [if_neg fits]
    constructor
    · intro
      contradiction
    · rintro ⟨short, rfl, admits⟩
      rw [Kind.admits_apply_iff allowed] at admits
      exact absurd ⟨short, admits.1⟩ fits

theorem read_eq_ok_iff {kind : Kind} {text : Bytes} (nonempty : text ≠ [])
    (number : Int) : read kind text = .ok number ↔ Denotes kind text number := by
  constructor
  · intro accepted
    rcases split : splitSign kind.signedness text with ⟨sign, digits⟩
    have allowed := allowsSign_of_split split
    cases Decimal.shape digits with
    | empty =>
        obtain ⟨first, rest, rfl⟩ := List.exists_cons_of_ne_nil nonempty
        rw [read_lone split rfl] at accepted
        contradiction
    | digits run written =>
        rw [read_digits_eq_ok_iff allowed split written] at accepted
        obtain ⟨short, denoted, admits⟩ := accepted
        exact ⟨sign, run, text_of_split split, allowed, written, short, denoted, admits⟩
    | stray front stray run =>
        rw [read_stray split stray] at accepted
        contradiction
  · rintro ⟨sign, digits, rfl, allowed, written, short, denoted, admits⟩
    have absent := Sign.absent_text digits
    rw [read_digits_eq_ok_iff allowed (splitSign_text_append allowed absent) written]
    exact ⟨short, denoted, admits⟩

theorem result_readView_eq_ok_iff (kind : Kind) (view : View) (number : Int) :
    (readView kind view).result = .ok number ↔
      ∃ text ∈ view, Denotes kind text number := by
  rcases view with _ | _ | ⟨first, rest⟩
  · simp [readView, Outcome.reading]
  · simp only [readView, Outcome.reading, Outcome.result_reject, Option.mem_def]
    constructor
    · intro
      contradiction
    · rintro ⟨_, ⟨⟩, denotes⟩
      exact absurd rfl denotes.ne_nil
  · simp [readView, Outcome.reading, read_eq_ok_iff]

theorem admits_of_result_readView {kind : Kind} {view : View} {number : Int}
    (accepted : (readView kind view).result = .ok number) : kind.Admits number := by
  rw [result_readView_eq_ok_iff] at accepted
  obtain ⟨text, -, sign, digits, -, -, -, -, -, admits⟩ := accepted
  exact admits

end Integer

end NumericFields
