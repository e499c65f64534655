import NumericFields.Proofs.Integer.Reader

/-!
# A sign in front of a text

A plus in front of a text changes nothing, and a minus negates the number that is read
or leaves the failure as it is.  Only the magnitude of the signed minimum is told apart
by its sign: it overflows on its own and behind a plus, and is a number behind a minus.
A text that has a sign already takes no other.
-/

namespace NumericFields.Integer

def Kind.SpellsLeast (kind : Kind) (text : Bytes) : Prop :=
  ∃ run, text = Decimal.text run ∧ run.length ≤ kind.capacity ∧
    Decimal.value run = 2 ^ (kind.width.bits - 1)

/-- How a text is answered behind a sign, given how it is answered on its own. -/
structure SignLaws (kind : Kind) (answer : Bytes → Except Failure Int) (text : Bytes) :
    Prop where
  plus : answer (Sign.plus.byte :: text) = answer text
  minus : ¬kind.SpellsLeast text →
    answer (Sign.minus.byte :: text) = (answer text).map Neg.neg
  least : kind.SpellsLeast text →
    answer text = .error .overflow ∧
      answer (Sign.minus.byte :: text) = .ok (-2 ^ (kind.width.bits - 1))

section Signed

variable {kind : Kind} {text : Bytes}

/-! ## The magnitude of the signed minimum -/

theorem Kind.magnitudeLimit_of_signed (signed : kind.signedness = .signed) :
    kind.magnitudeLimit = 2 ^ (kind.width.bits - 1) := by
  rw [magnitudeLimit, signed]
  exact Nat.one_shiftLeft _

theorem Kind.succ_positiveMax_of_signed (signed : kind.signedness = .signed) :
    kind.positiveMax + 1 = 2 ^ (kind.width.bits - 1) := by
  rw [positiveMax, signed]
  cases kind.width <;> rfl

theorem Kind.spellsLeast_text_iff (signed : kind.signedness = .signed)
    (run : List Digit) :
    kind.SpellsLeast (Decimal.text run) ↔
      kind.Fits run ∧ kind.positiveMax < Decimal.value run := by
  have limit := Kind.magnitudeLimit_of_signed signed
  have most := Kind.succ_positiveMax_of_signed signed
  constructor
  · rintro ⟨other, same, short, least⟩
    obtain rfl := Decimal.text_injective same
    exact ⟨⟨short, by omega⟩, by omega⟩
  · rintro ⟨⟨short, small⟩, large⟩
    exact ⟨run, rfl, short, by omega⟩

theorem Kind.not_spellsLeast_of_stray (front : Bytes) {byte : UInt8}
    (stray : isDigit byte = false) (back : Bytes) :
    ¬kind.SpellsLeast (front ++ byte :: back) := by
  rintro ⟨run, same, -⟩
  have mem : byte ∈ Decimal.text run := by simp [← same]
  have digit := Decimal.isDigit_of_mem_text mem
  rw [stray] at digit
  contradiction

/-! ## Reading behind a sign -/

theorem read_behind (signed : kind.signedness = .signed) (absent : Sign.Absent text)
    (nonempty : text ≠ []) (sign : Option Sign) :
    read kind (Sign.text sign ++ text) =
      (Accumulator.gather kind text).bind fun sum =>
        applySign kind (Sign.isNegative sign) sum.value :=
  read_of_split (splitSign_text_append (Kind.allowsSign_of_signed signed sign) absent)
    nonempty

theorem applySign_minus (signed : kind.signedness = .signed) {magnitude : Nat}
    (small : magnitude ≤ kind.magnitudeLimit) :
    applySign kind true magnitude = .ok (-(magnitude : Int)) := by
  have allowed := Kind.allowsSign_of_signed signed (some .minus)
  rcases applySign_eq allowed small with ⟨-, applied⟩ | ⟨refused, -⟩
  · exact applied
  · rw [Kind.admits_apply_iff allowed] at refused
    exact absurd ⟨small, fun positive => absurd rfl positive⟩ refused

theorem applySign_unsigned (signed : kind.signedness = .signed) {magnitude : Nat}
    (small : magnitude ≤ kind.magnitudeLimit) :
    applySign kind false magnitude =
      if kind.positiveMax < magnitude then .error .overflow else .ok magnitude := by
  have allowed := Kind.allowsSign_of_signed signed none
  rcases applySign_eq allowed small with ⟨admits, applied⟩ | ⟨refused, applied⟩
  · rw [Kind.admits_apply_iff allowed] at admits
    rw [if_neg (not_lt.mpr (admits.2 (by decide)))]
    exact applied
  · rw [Kind.admits_apply_iff allowed] at refused
    rw [if_pos (by simpa [small] using refused)]
    exact applied

/-! ## The two shapes of a text -/

theorem signLaws_of_error (signed : kind.signedness = .signed)
    (absent : Sign.Absent text) (nonempty : text ≠ []) {failure : Failure}
    (failed : Accumulator.gather kind text = .error failure)
    (other : ¬kind.SpellsLeast text) : SignLaws kind (read kind) text := by
  have alike (sign : Option Sign) :
      read kind (Sign.text sign ++ text) = .error failure := by
    rw [read_behind signed absent nonempty, failed]
    rfl
  refine ⟨(alike (some .plus)).trans (alike none).symm, fun _ => ?_,
    fun least => absurd least other⟩
  rw [show read kind text = .error failure from alike none]
  exact alike (some .minus)

theorem signLaws_of_fits (signed : kind.signedness = .signed) {run : List Digit}
    (nonempty : Decimal.text run ≠ []) (fits : kind.Fits run) :
    SignLaws kind (read kind) (Decimal.text run) := by
  have behind (sign : Option Sign) :
      read kind (Sign.text sign ++ Decimal.text run) =
        applySign kind (Sign.isNegative sign) (Decimal.value run) := by
    rw [read_behind signed (Sign.absent_text run) nonempty, Accumulator.gather_text,
      if_pos fits, Except.bind, Accumulator.ofDigits]
  have alone : read kind (Decimal.text run) = _ :=
    (behind none).trans (applySign_unsigned signed fits.2)
  have minus : read kind (Sign.minus.byte :: Decimal.text run) = _ :=
    (behind (some .minus)).trans (applySign_minus signed fits.2)
  have large :
      kind.SpellsLeast (Decimal.text run) ↔ kind.positiveMax < Decimal.value run :=
    (Kind.spellsLeast_text_iff signed run).trans (and_iff_right fits)
  refine ⟨(behind (some .plus)).trans (behind none).symm, fun other => ?_,
    fun least => ⟨?_, ?_⟩⟩
  · rw [alone, minus, if_neg (large.not.mp other)]
    rfl
  · rw [alone, if_pos (large.mp least)]
  · obtain ⟨_, same, -, least⟩ := least
    rw [minus, Decimal.text_injective same, least]
    norm_cast

theorem signLaws_read (signed : kind.signedness = .signed) (absent : Sign.Absent text)
    (nonempty : text ≠ []) : SignLaws kind (read kind) text := by
  -- Gathering does not see the sign, so only a run that is gathered can depend on it.
  cases Decimal.shape text with
  | empty => contradiction
  | digits run written =>
      by_cases fits : kind.Fits run
      · exact signLaws_of_fits signed nonempty fits
      · have failed : Accumulator.gather kind (Decimal.text run) = .error .overflow := by
          rw [Accumulator.gather_text, if_neg fits]
        have other := mt (Kind.spellsLeast_text_iff signed run).mp fun both => fits both.1
        exact signLaws_of_error signed absent nonempty failed other
  | stray front stray run =>
      exact signLaws_of_error signed absent nonempty
        (Accumulator.gather_stray kind front stray run)
        (Kind.not_spellsLeast_of_stray front stray _)

/-! ## A second sign -/

theorem read_two_signs (signed : kind.signedness = .signed) (first : Sign)
    (second : ¬Sign.Absent text) :
    ∃ failure, read kind (first.byte :: text) = .error failure := by
  have split : splitSign kind.signedness (first.byte :: text) = (some first, text) := by
    rw [signed]
    exact Sign.take_byte_cons first text
  cases Decimal.shape text with
  | empty => exact absurd Sign.absent_nil second
  | digits run written => exact absurd (Sign.absent_text run) second
  | stray front stray run => exact ⟨_, read_stray split stray⟩

end Signed

/-- A plus changes no answer of a signed reader, and a minus only the sign of a number,
except that the magnitude of the signed minimum is a number behind a minus alone.  In
front of another sign each is refused. -/
theorem signs_negate_or_fail {reader : Reader} (signed : reader.kind.signedness = .signed)
    {text : Bytes} (nonempty : text ≠ []) :
    let answer text := (reader.outcome (some text)).result
    (Sign.Absent text → SignLaws reader.kind answer text) ∧
      (¬Sign.Absent text → ∀ sign : Sign, ∃ failure,
        answer (sign.byte :: text) = .error failure) := by
  have alone : (reader.outcome (some text)).result = read reader.kind text :=
    reader.result_outcome_some nonempty
  have behind (sign : Sign) :
      (reader.outcome (some (sign.byte :: text))).result =
        read reader.kind (sign.byte :: text) :=
    reader.result_outcome_some (List.cons_ne_nil _ _)
  constructor
  · intro absent
    obtain ⟨plus, minus, least⟩ := signLaws_read signed absent nonempty
    rw [← behind, ← alone] at plus
    rw [← behind, ← alone] at minus least
    exact ⟨plus, minus, least⟩
  · intro second sign
    obtain ⟨failure, failed⟩ := read_two_signs signed sign second
    exact ⟨failure, (behind sign).trans failed⟩

theorem signs_of_least_byte :
    let answer text := (Reader.int8.outcome (some text)).result
    Reader.int8.kind.SpellsLeast [0x31, 0x32, 0x38] ∧
      answer [0x31, 0x32, 0x38] = .error .overflow ∧
      answer [0x2b, 0x31, 0x32, 0x38] = .error .overflow ∧
      answer [0x2d, 0x31, 0x32, 0x38] = .ok (-128) ∧
      ∃ failure, answer [0x2b, 0x2d, 0x35] = .error failure := by
  have least : Reader.int8.kind.SpellsLeast [0x31, 0x32, 0x38] :=
    ⟨[1, 2, 8], rfl, (Kind.lt_capacity_iff _ 2).mpr (by decide), rfl⟩
  have signed : Reader.int8.kind.signedness = .signed := rfl
  have laws : SignLaws Reader.int8.kind
      (fun text => (Reader.int8.outcome (some text)).result) [0x31, 0x32, 0x38] :=
    (signs_negate_or_fail signed (by decide)).1 (Sign.absent_text [1, 2, 8])
  have second : ¬Sign.Absent [0x2d, 0x35] := fun absent => absent 0x2d rfl .minus rfl
  obtain ⟨alone, minus⟩ := laws.least least
  exact ⟨least, alone, laws.plus.trans alone, minus,
    (signs_negate_or_fail signed (by decide)).2 second .plus⟩

end NumericFields.Integer
