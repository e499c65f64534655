import NumericFields.Proofs.Integer.Reader
import NumericFields.Proofs.Text.Runs

/-!
# Digits in front of a text

A text is read from its end, so what ends the reading of a text ends it alike with other
bytes in front of it.  A run of digits is read exactly if its two halves are and there is
room for both, and then the front one weighs as many places as the back one has digits.
-/

namespace NumericFields.Integer

/-- How a text is answered with another in front of it, given the answers to both. -/
structure FrontLaws (answer : Bytes → Except Failure Int) (front back : Bytes) : Prop where
  failure : ∀ failure, answer back = .error failure →
    answer (front ++ back) = .error failure
  number : ∀ number, answer (front ++ back) = .ok number →
    ∃ high low, answer front = .ok high ∧ answer back = .ok low ∧
      number = high * 10 ^ back.length + low
  overflow : ∀ high low failure, answer front = .ok high → answer back = .ok low →
    answer (front ++ back) = .error failure → failure = .overflow

/-- A text without a sign is refused for the same byte whatever stands in front of it. -/
def KeepsStray {α : Type u} (answer : Bytes → Except Failure α) : Prop :=
  ∀ front back byte, back ≠ [] → Sign.Absent back →
    answer back = .error (.nonNumeric byte) →
      answer (front ++ back) = .error (.nonNumeric byte)

variable {kind : Kind} {text front back : Bytes}

theorem run_or_error_of_unsplit (split : splitSign kind.signedness text = (none, text))
    (nonempty : text ≠ []) :
    (∃ run, text = Decimal.text run ∧ run ≠ [] ∧ kind.Fits run) ∨
      ∃ failure, Accumulator.gather kind text = .error failure ∧
        read kind text = .error failure := by
  cases Decimal.shape text with
  | empty => contradiction
  | digits run written =>
      by_cases fits : kind.Fits run
      · exact .inl ⟨run, rfl, written, fits⟩
      · refine .inr ⟨.overflow, ?_, ?_⟩
        · rw [Accumulator.gather_text, if_neg fits]
        · rw [read_digits split written, if_neg fits]
  | stray front stray run =>
      exact .inr ⟨_, Accumulator.gather_stray kind front stray run, read_stray split stray⟩

/-! ## What ends the reading -/

theorem exists_splitSign_append (absent : kind.signedness = .signed → Sign.Absent back)
    (front : Bytes) :
    ∃ sign rest, splitSign kind.signedness (front ++ back) = (sign, rest ++ back) := by
  cases signedness : kind.signedness with
  | unsigned => exact ⟨none, front, rfl⟩
  | signed =>
      cases front with
      | nil => exact ⟨none, [], Sign.take_of_absent (absent signedness)⟩
      | cons first rest =>
          -- a sign that is taken off stands in front of the back part
          rw [splitSign, List.cons_append, Sign.take]
          cases Sign.ofByte? first with
          | some sign => exact ⟨some sign, rest, rfl⟩
          | none => exact ⟨none, first :: rest, rfl⟩

theorem read_append_of_error (absent : kind.signedness = .signed → Sign.Absent back)
    (nonempty : back ≠ []) {failure : Failure}
    (failed : Accumulator.gather kind back = .error failure) (front : Bytes) :
    read kind (front ++ back) = .error failure := by
  obtain ⟨sign, rest, split⟩ := exists_splitSign_append absent front
  rw [read_of_split split (List.append_ne_nil_of_right_ne_nil rest nonempty),
    Accumulator.gather_append_of_error failed]
  rfl

theorem gather_of_read_stray (absent : Sign.Absent text) (nonempty : text ≠ [])
    {byte : UInt8} (failed : read kind text = .error (.nonNumeric byte)) :
    Accumulator.gather kind text = .error (.nonNumeric byte) := by
  have allowed : kind.AllowsSign none := fun _ => rfl
  have split : splitSign kind.signedness text = (none, text) :=
    splitSign_text_append allowed absent
  rcases run_or_error_of_unsplit split nonempty with
    ⟨run, rfl, written, -⟩ | ⟨failure, gathered, same⟩
  · -- a run is too large at worst
    have digits : read kind (Sign.text none ++ Decimal.text run) = _ := failed
    rcases read_ok_or_overflow allowed written with ⟨number, accepted⟩ | overflow
    · exact absurd (accepted.symm.trans digits) (by simp)
    · exact absurd (overflow.symm.trans digits) (by simp)
  · rw [same] at failed
    rw [gathered, Except.error.inj failed]

theorem keepsStray_read (kind : Kind) : KeepsStray (read kind) := by
  intro front back byte nonempty absent failed
  exact read_append_of_error (fun _ => absent) nonempty
    (gather_of_read_stray absent nonempty failed) front

/-! ## Unsigned numbers -/

section Unsigned

variable (unsigned : kind.signedness = .unsigned)

include unsigned

theorem splitSign_unsigned (text : Bytes) :
    splitSign kind.signedness text = (none, text) := by
  rw [unsigned]
  rfl

theorem read_of_fits {run : List Digit} (written : run ≠ []) (fits : kind.Fits run) :
    read kind (Decimal.text run) = .ok (Decimal.value run : Int) := by
  have allowed : kind.AllowsSign none := fun _ => rfl
  rw [read_digits (splitSign_unsigned unsigned _) written, if_pos fits]
  rcases applySign_eq allowed fits.2 with ⟨-, applied⟩ | ⟨refused, -⟩
  · exact applied
  · rw [Kind.admits_apply_iff allowed] at refused
    have most := fits.2
    rw [Kind.magnitudeLimit_of_unsigned unsigned] at most
    exact absurd ⟨fits.2, fun _ => most⟩ refused

theorem gather_of_read_error (nonempty : text ≠ []) {failure : Failure}
    (failed : read kind text = .error failure) :
    Accumulator.gather kind text = .error failure := by
  rcases run_or_error_of_unsplit (splitSign_unsigned unsigned text) nonempty with
    ⟨run, rfl, written, fits⟩ | ⟨other, gathered, same⟩
  · rw [read_of_fits unsigned written fits] at failed
    contradiction
  · rw [same] at failed
    rw [gathered, Except.error.inj failed]

theorem exists_run_of_read (nonempty : text ≠ []) {number : Int}
    (accepted : read kind text = .ok number) :
    ∃ run, text = Decimal.text run ∧ run ≠ [] ∧ kind.Fits run ∧
      number = Decimal.value run := by
  rcases run_or_error_of_unsplit (splitSign_unsigned unsigned text) nonempty with
    ⟨run, rfl, written, fits⟩ | ⟨failure, -, same⟩
  · rw [read_of_fits unsigned written fits] at accepted
    exact ⟨run, rfl, written, fits, (Except.ok.inj accepted).symm⟩
  · rw [same] at accepted
    contradiction

theorem frontLaws_read (front_ne : front ≠ []) (back_ne : back ≠ []) :
    FrontLaws (read kind) front back where
  failure failure failed :=
    read_append_of_error (by simp [unsigned]) back_ne
      (gather_of_read_error unsigned back_ne failed) front
  number number accepted := by
    have joined := List.append_ne_nil_of_right_ne_nil front back_ne
    obtain ⟨run, split, -, fits, rfl⟩ := exists_run_of_read unsigned joined accepted
    obtain ⟨high, low, rfl, rfl, rfl⟩ := List.map_eq_append_iff.mp split.symm
    obtain ⟨fits_high, fits_low⟩ := Kind.Fits.of_append fits
    have high_ne : high ≠ [] := List.map_eq_nil_iff.not.mp front_ne
    have low_ne : low ≠ [] := List.map_eq_nil_iff.not.mp back_ne
    refine ⟨_, _, read_of_fits unsigned high_ne fits_high,
      read_of_fits unsigned low_ne fits_low, ?_⟩
    rw [Decimal.value_append, List.length_map]
    push_cast
    rfl
  overflow high low failure accepted accepted' failed := by
    obtain ⟨high, rfl, written, -⟩ := exists_run_of_read unsigned front_ne accepted
    obtain ⟨low, rfl, -⟩ := exists_run_of_read unsigned back_ne accepted'
    have allowed : kind.AllowsSign none := fun _ => rfl
    have joined := List.append_ne_nil_of_left_ne_nil written low
    rw [← Decimal.text_append] at failed
    rcases read_ok_or_overflow allowed joined with ⟨number, accepted⟩ | overflow
    · exact absurd (accepted.symm.trans failed) (by simp)
    · exact Except.error.inj (failed.symm.trans overflow)

end Unsigned

/-! ## Readers and targets -/

theorem FrontLaws.of_reads (unsigned : kind.signedness = .unsigned)
    {answer : Bytes → Except Failure Int}
    (reads : ∀ text, text ≠ [] → answer text = read kind text)
    (front_ne : front ≠ []) (back_ne : back ≠ []) : FrontLaws answer front back := by
  have joined := List.append_ne_nil_of_right_ne_nil front back_ne
  obtain ⟨failure, number, overflow⟩ := frontLaws_read unsigned front_ne back_ne
  rw [← reads back back_ne, ← reads _ joined] at failure number overflow
  rw [← reads front front_ne] at number overflow
  exact ⟨failure, number, overflow⟩

theorem Target.Exact.reads {α : Type u} {target : Target α} {toInt : α → Int}
    (exact : target.Exact toInt) (nonempty : text ≠ []) :
    ((parse target (some text)).map toInt).result = read target.kind text := by
  rw [map_parse_of_exact exact, readView, Outcome.result_reading_some nonempty]

theorem result_parse_eq_stray_iff {α : Type u} (target : Target α) (nonempty : text ≠ [])
    (byte : UInt8) :
    (parse target (some text)).result = .error (.nonNumeric byte) ↔
      read target.kind text = .error (.nonNumeric byte) := by
  rw [parse, Outcome.result_convert_eq_error_iff, readView,
    Outcome.result_reading_some nonempty]
  simp

/-- For an unsigned reader, or a target that holds the numbers of an unsigned kind: a
text that fails does so with any other in front of it; a number that two texts together
denote is made up of the numbers that both denote; and two numbers that together are none
are too large.  For every reader and target, a byte that is refused is refused whatever
stands in front of its text, which may not begin with a sign. -/
theorem fronts_combine_or_fail :
    (∀ reader : Reader, reader.kind.signedness = .unsigned →
      ∀ front back : Bytes, front ≠ [] → back ≠ [] →
        FrontLaws (fun text => (reader.outcome (some text)).result) front back) ∧
    (∀ {α : Type u} (target : Target α) (toInt : α → Int), target.Exact toInt →
      target.kind.signedness = .unsigned →
        ∀ front back : Bytes, front ≠ [] → back ≠ [] →
          FrontLaws (fun text => ((parse target (some text)).map toInt).result)
            front back) ∧
    (∀ reader : Reader, KeepsStray fun text => (reader.outcome (some text)).result) ∧
    ∀ {α : Type u} (target : Target α),
      KeepsStray fun text => (parse target (some text)).result := by
  refine ⟨fun reader unsigned front back front_ne back_ne => ?_,
    fun target toInt exact unsigned front back front_ne back_ne => ?_,
    fun reader front back byte nonempty absent => ?_,
    fun target front back byte nonempty absent => ?_⟩
  · exact .of_reads unsigned (fun text => reader.result_outcome_some) front_ne back_ne
  · exact .of_reads unsigned (fun text => exact.reads) front_ne back_ne
  · have joined := List.append_ne_nil_of_right_ne_nil front nonempty
    simp only [reader.result_outcome_some nonempty, reader.result_outcome_some joined]
    exact keepsStray_read reader.kind front back byte nonempty absent
  · have joined := List.append_ne_nil_of_right_ne_nil front nonempty
    simp only [result_parse_eq_stray_iff target nonempty,
      result_parse_eq_stray_iff target joined]
    exact keepsStray_read target.kind front back byte nonempty absent

theorem digits_in_front_of_byte :
    let unsigned text := (Reader.uint8.outcome (some text)).result
    let signed text := (Reader.int8.outcome (some text)).result
    unsigned [0x31, 0x30, 0x37] = .ok 107 ∧
      (∃ high low, unsigned [0x31] = .ok high ∧ unsigned [0x30, 0x37] = .ok low ∧
        (107 : Int) = high * 10 ^ 2 + low) ∧
      unsigned [0x33, 0x30, 0x37] = .error .overflow ∧
      Sign.Absent [0x37, 0x61, 0x37] ∧
      signed [0x37, 0x61, 0x37] = .error (.nonNumeric 0x61) ∧
      signed [0x2b, 0x2d, 0x37, 0x61, 0x37] = .error (.nonNumeric 0x61) := by
  have accepted : (Reader.uint8.outcome (some [0x31, 0x30, 0x37])).result = .ok 107 := by
    decide
  have absent : Sign.Absent [0x37, 0x61, 0x37] := Sign.absent_cons (by decide)
  have failed : (Reader.int8.outcome (some [0x37, 0x61, 0x37])).result =
      .error (.nonNumeric 0x61) := by
    decide
  obtain ⟨combined, -, kept, -⟩ := fronts_combine_or_fail.{0}
  have laws := combined .uint8 rfl [0x31] [0x30, 0x37] (by decide) (by decide)
  exact ⟨accepted, laws.number 107 accepted, by decide, absent, failed,
    kept .int8 [0x2b, 0x2d] _ _ (by decide) absent failed⟩

end NumericFields.Integer
