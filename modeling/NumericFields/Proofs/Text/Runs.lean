import NumericFields.Proofs.Text.Decimal

/-!
# Runs of digits

Zeros in front of a run of digits leave its value as it is.  Conversely every run
is made up of such zeros and of the canonical digits of its value, so a number has
one spelling for each number of zeros.

Text that is read from its end is first of all its longest run of digits there.
Either the run is the whole text, or a byte that is no digit stands before it, and
these are the shapes that a text can have.
-/

namespace NumericFields

/-! ## Zeros in front of a number -/

namespace Decimal

structure Canonical (run : List Digit) : Prop where
  written : run ≠ []
  leading : run.head? = some 0 → run = [0]

theorem text_replicate_zero (zeros : Nat) :
    text (List.replicate zeros 0) = List.replicate zeros 0x30 :=
  List.map_replicate

theorem text_append (front back : List Digit) :
    text (front ++ back) = text front ++ text back :=
  List.map_append

@[simp] theorem value_replicate_zero (zeros : Nat) :
    value (List.replicate zeros 0) = 0 := by
  induction zeros with
  | zero => rfl
  | succ zeros ih => simp [List.replicate_succ, value_cons, ih]

theorem value_replicate_append (zeros : Nat) (run : List Digit) :
    value (List.replicate zeros 0 ++ run) = value run := by
  simp [value_append]

/-! ## Canonical digits -/

theorem digits_digit (digit : Digit) : digits digit.val = [digit] := by
  rw [digits, digitsOnto_of_lt digit.isLt, Fin.ofNat_val_eq_self]

theorem digits_zero : digits 0 = [0] := digits_digit 0

theorem digits_shift {number : Nat} (positive : 0 < number) (digit : Digit) :
    digits (shift number digit) = digits number ++ [digit] := by
  have quotient : shift number digit / 10 = number := by
    rw [shift]
    omega
  have remainder : Fin.ofNat 10 (shift number digit) = digit := by
    apply Fin.ext
    rw [Fin.val_ofNat, shift]
    omega
  have large : 10 ≤ shift number digit := by
    rw [shift]
    omega
  rw [digits, digitsOnto_of_le large, digitsOnto_eq_append, quotient, remainder]

theorem value_concat (front : List Digit) (digit : Digit) :
    value (front ++ [digit]) = shift (value front) digit := by
  rw [value, List.foldl_append]
  rfl

theorem canonical_digits (number : Nat) : Canonical (digits number) where
  written := digits_ne_nil number
  leading zero := by
    induction number using Nat.strong_induction_on with
    | _ number ih =>
        by_cases small : number < 10
        · rw [digits, digitsOnto_of_lt small] at zero ⊢
          rw [Option.some.inj zero]
        · have large : 10 ≤ number := by omega
          rw [digits, digitsOnto_of_le large, digitsOnto_eq_append,
            List.head?_append_of_ne_nil _ (digits_ne_nil _)] at zero
          have none := congrArg value (ih (number / 10) (by omega) zero)
          rw [value_digits, show value [0] = 0 from rfl] at none
          omega

theorem exists_replicate_append_digits {run : List Digit} (written : run ≠ []) :
    ∃ zeros, run = List.replicate zeros 0 ++ digits (value run) := by
  induction run using List.reverseRecOn with
  | nil => contradiction
  | append_singleton front digit ih =>
      rw [value_concat]
      by_cases empty : front = []
      · subst empty
        exact ⟨0, by simp [shift, digits_digit]⟩
      · obtain ⟨zeros, split⟩ := ih empty
        -- A front of value zero is one more zero in front of the digit.
        rcases Nat.eq_zero_or_pos (value front) with zero | positive
        · refine ⟨zeros + 1, ?_⟩
          rw [split, value_replicate_append, value_digits, zero, digits_zero,
            List.replicate_succ']
          simp [shift, digits_digit]
        · refine ⟨zeros, ?_⟩
          rw [digits_shift positive, ← List.append_assoc, ← split]

/-! ## The run at the end of a text -/

structure FinalRun (text : Bytes) (run : List Digit) : Prop where
  suffix : Decimal.text run <:+ text
  longest : ∀ other, Decimal.text other <:+ text → other.length ≤ run.length

namespace FinalRun

theorem of_digits (run : List Digit) : FinalRun (Decimal.text run) run where
  suffix := List.suffix_refl _
  longest other inside := by
    simpa using inside.length_le

theorem of_stray (front : Bytes) {byte : UInt8} (stray : isDigit byte = false)
    (run : List Digit) : FinalRun (front ++ byte :: Decimal.text run) run where
  suffix := (List.suffix_cons byte _).trans (List.suffix_append front _)
  longest other inside := by
    by_contra longer
    have covers : byte :: Decimal.text run <:+ Decimal.text other := by
      apply List.suffix_of_suffix_length_le (List.suffix_append front _) inside
      rw [List.length_cons, length_text, length_text]
      omega
    have digit := isDigit_of_mem_text (covers.subset List.mem_cons_self)
    rw [stray] at digit
    contradiction

theorem cases_text {text : Bytes} {run : List Digit} (final : FinalRun text run) :
    text = Decimal.text run ∨
      ∃ front byte, isDigit byte = false ∧ text = front ++ byte :: Decimal.text run := by
  obtain ⟨front, rfl⟩ := final.suffix
  rcases List.eq_nil_or_concat front with rfl | ⟨front, byte, rfl⟩
  · exact .inl (List.nil_append _)
  · rw [List.concat_eq_append, ← List.append_cons] at final ⊢
    refine .inr ⟨front, byte, ?_, rfl⟩
    cases read : Digit.ofByte? byte with
    | none => simp [isDigit, read]
    | some digit =>
        have longer : (digit :: run).length ≤ run.length := by
          apply final.longest
          rw [text_cons, ← Digit.eq_byte_of_ofByte? read]
          exact List.suffix_append front _
        rw [List.length_cons] at longer
        omega

end FinalRun

theorem exists_finalRun (text : Bytes) : ∃ run, FinalRun text run := by
  induction text with
  | nil => exact ⟨[], .of_digits []⟩
  | cons byte rest ih =>
      obtain ⟨run, final⟩ := ih
      rcases final.cases_text with rfl | ⟨front, stray, isStray, rfl⟩
      · cases read : Digit.ofByte? byte with
        | none => exact ⟨run, .of_stray [] (by simp [isDigit, read]) run⟩
        | some digit =>
            refine ⟨digit :: run, ?_⟩
            rw [Digit.eq_byte_of_ofByte? read, ← text_cons]
            exact .of_digits _
      · exact ⟨run, .of_stray (byte :: front) isStray run⟩

/-- A text is empty, a run of digits, or has a stray byte in front of its last run. -/
inductive Shape : Bytes → Prop
  | empty : Shape []
  | digits (run : List Digit) (written : run ≠ []) : Shape (Decimal.text run)
  | stray (front : Bytes) {byte : UInt8} (stray : isDigit byte = false)
      (run : List Digit) : Shape (front ++ byte :: Decimal.text run)

theorem shape (text : Bytes) : Shape text := by
  obtain ⟨run, final⟩ := exists_finalRun text
  rcases final.cases_text with rfl | ⟨front, byte, stray, rfl⟩
  · by_cases empty : run = []
    · subst empty
      exact .empty
    · exact .digits run empty
  · exact .stray front stray run

end Decimal

end NumericFields
