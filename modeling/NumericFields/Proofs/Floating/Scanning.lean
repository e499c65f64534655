import NumericFields.Floating.Parse
import NumericFields.Proofs.Floating.Spelling

/-!
# Scanning the parts of a literal

Each part of the scanner returns the text behind what it passes over.  That is
always an end of the text with a spelled part before it, and no part spelled at
the front of the text reaches further: whatever it leaves is at least as long.
-/

namespace NumericFields.Floating.LiteralPrefix

/-! ## Digits and exponents -/

theorem afterDigits?_text_append {digits : List Digit} (written : digits ≠ [])
    (rest : Bytes) :
    afterDigits? (Decimal.text digits ++ rest) = some (rest.dropWhile isDigit) := by
  cases digits with
  | nil => contradiction
  | cons digit digits =>
      simp [afterDigits?, Decimal.dropWhile_text_append]

theorem exists_digits_of_afterDigits? {text rest : Bytes}
    (scanned : afterDigits? text = some rest) :
    rest = text.dropWhile isDigit ∧
      ∃ digits, digits ≠ [] ∧ text = Decimal.text digits ++ rest := by
  cases text with
  | nil => contradiction
  | cons first text =>
      rw [afterDigits?] at scanned
      split at scanned
      · next digit =>
          obtain rfl := Option.some.inj scanned
          have read := Option.isSome_iff_exists.mp digit
          obtain ⟨value, read⟩ := read
          obtain ⟨digits, split⟩ := Decimal.exists_text_append_dropWhile text
          refine ⟨by simp [digit], value :: digits, by simp, ?_⟩
          rw [Decimal.text_cons, List.cons_append, ← split,
            Digit.eq_byte_of_ofByte? read]
      · contradiction

theorem afterDigits?_of_absent {text : Bytes} (absent : Decimal.Absent text) :
    afterDigits? text = none := by
  cases text with
  | nil => rfl
  | cons first rest => simp [afterDigits?, absent first rfl]

theorem absent_of_afterDigits? {text : Bytes} (scanned : afterDigits? text = none) :
    Decimal.Absent text := by
  cases text with
  | nil => exact Decimal.absent_nil
  | cons first rest =>
      apply Decimal.absent_cons
      simpa [afterDigits?] using scanned

theorem afterExponent_text_append (exponent : Exponent) (rest : Bytes) :
    afterExponent (exponent.text ++ rest) = rest.dropWhile isDigit := by
  rcases exponent with ⟨capital, sign, digits, written⟩
  have absent := Sign.absent_digits digits rest written
  simp [Exponent.text, afterExponent, dropSign, List.append_assoc,
    Sign.take_text_append sign absent, afterDigits?_text_append written]

theorem exists_exponent_of_afterExponent (text : Bytes) :
    ∃ exponent, text = Exponent.tail exponent ++ afterExponent text := by
  cases text with
  | nil => exact ⟨none, rfl⟩
  | cons first rest =>
      rw [afterExponent]
      cases marked : Exponent.capitalOfMarker? first with
      | none => exact ⟨none, rfl⟩
      | some capital =>
          rw [Option.isSome_some, if_pos rfl]
          cases scanned : afterDigits? (dropSign rest) with
          | none => exact ⟨none, rfl⟩
          | some behind =>
              obtain ⟨-, digits, written, split⟩ := exists_digits_of_afterDigits? scanned
              refine ⟨some ⟨capital, (Sign.take rest).1, digits, written⟩, ?_⟩
              simp only [Exponent.tail, Option.elim_some, Exponent.text,
                Option.getD_some, List.cons_append, List.append_assoc, ← split]
              rw [Exponent.eq_marker_of_capitalOfMarker? marked, dropSign,
                Sign.text_take]

theorem length_afterExponent_le (text : Bytes) :
    (afterExponent text).length ≤ text.length := by
  obtain ⟨exponent, split⟩ := exists_exponent_of_afterExponent text
  have total := congrArg List.length split
  rw [List.length_append] at total
  omega

/-- Passing over more digits than the part has, no exponent behind it is missed. -/
theorem length_afterExponent_dropWhile_le (exponent : Option Exponent) (rest : Bytes) :
    (afterExponent ((Exponent.tail exponent ++ rest).dropWhile isDigit)).length ≤
      rest.length := by
  have shorter := (rest.dropWhile_suffix isDigit).length_le
  cases exponent with
  | none => exact (length_afterExponent_le _).trans shorter
  | some exponent =>
      have absent : Decimal.Absent (exponent.text ++ rest) :=
        Decimal.absent_cons (isDigit_marker exponent.capital)
      rw [Exponent.tail, Option.elim_some, Decimal.dropWhile_of_absent absent,
        afterExponent_text_append]
      exact shorter

/-! ## Numerals -/

def afterFraction : Bytes → Bytes
  | [] => []
  | first :: rest => if first = point then rest.dropWhile isDigit else first :: rest

theorem afterNumeral?_of_digits {text rest : Bytes}
    (scanned : afterDigits? text = some rest) :
    afterNumeral? text = some (afterExponent (afterFraction rest)) := by
  obtain ⟨behind, -⟩ := exists_digits_of_afterDigits? scanned
  rw [afterNumeral?, scanned, ← behind]
  cases rest with
  | nil => rfl
  | cons first rest =>
      simp only [afterFraction]
      split_ifs <;> rfl

theorem afterNumeral?_point (rest : Bytes) :
    afterNumeral? (point :: rest) = (afterDigits? rest).map afterExponent := by
  have absent : Decimal.Absent (point :: rest) := Decimal.absent_cons isDigit_point
  rw [afterNumeral?, afterDigits?_of_absent absent, Decimal.dropWhile_of_absent absent]
  exact if_pos rfl

theorem exists_fraction_of_afterFraction (text : Bytes) :
    ∃ fraction, text = Numeral.fractionText fraction ++ afterFraction text := by
  cases text with
  | nil => exact ⟨none, rfl⟩
  | cons first rest =>
      rw [afterFraction]
      split
      · next isPoint =>
          obtain ⟨digits, split⟩ := Decimal.exists_text_append_dropWhile rest
          refine ⟨some digits, ?_⟩
          rw [isPoint, Numeral.fractionText, Option.elim_some, List.cons_append,
            ← split]
      · exact ⟨none, rfl⟩

theorem afterFraction_text_append (exponent : Exponent) (rest : Bytes) :
    afterFraction (exponent.text ++ rest) = exponent.text ++ rest :=
  if_neg (marker_ne_point exponent.capital)

theorem length_afterFraction_le (text : Bytes) :
    (afterFraction text).length ≤ text.length := by
  obtain ⟨fraction, split⟩ := exists_fraction_of_afterFraction text
  have total := congrArg List.length split
  rw [List.length_append] at total
  omega

theorem exists_numeral_of_afterNumeral? {text rest : Bytes}
    (scanned : afterNumeral? text = some rest) :
    ∃ numeral : Numeral, text = numeral.text ++ rest := by
  cases whole : afterDigits? text with
  | some behind =>
      rw [afterNumeral?_of_digits whole] at scanned
      obtain rfl := Option.some.inj scanned
      obtain ⟨-, digits, written, split⟩ := exists_digits_of_afterDigits? whole
      obtain ⟨fraction, hfraction⟩ := exists_fraction_of_afterFraction behind
      obtain ⟨exponent, hexponent⟩ :=
        exists_exponent_of_afterExponent (afterFraction behind)
      refine ⟨⟨digits, fraction, exponent, fun none => written none.1⟩, ?_⟩
      simp only [Numeral.text_eq, List.append_assoc]
      rw [← hexponent, ← hfraction, ← split]
  | none =>
      have absent := absent_of_afterDigits? whole
      rcases text with _ | ⟨first, tail⟩
      · contradiction
      · by_cases isPoint : first = point
        · rw [isPoint, afterNumeral?_point, Option.map_eq_some_iff] at scanned
          obtain ⟨behind, fraction, rfl⟩ := scanned
          obtain ⟨-, digits, written, split⟩ := exists_digits_of_afterDigits? fraction
          obtain ⟨exponent, hexponent⟩ := exists_exponent_of_afterExponent behind
          refine ⟨⟨[], some digits, exponent, fun none => written none.2⟩, ?_⟩
          simp only [Numeral.text_eq, Decimal.text_nil, List.nil_append,
            Numeral.fractionText, Option.elim_some, List.cons_append,
            List.append_assoc]
          rw [← hexponent, ← split, isPoint]
        · rw [afterNumeral?, whole, Decimal.dropWhile_of_absent absent] at scanned
          simp [isPoint] at scanned

theorem afterNumeral?_text_append (numeral : Numeral) (rest : Bytes) :
    ∃ left, afterNumeral? (numeral.text ++ rest) = some left ∧
      left.length ≤ rest.length := by
  rw [Numeral.text_eq, List.append_assoc, List.append_assoc]
  have shorter := (rest.dropWhile_suffix isDigit).length_le
  rcases numeral with ⟨whole, fraction, exponent, written⟩
  by_cases empty : whole = []
  · subst empty
    rcases fraction with _ | digits
    · simp at written
    · have filled : digits ≠ [] := by simpa using written
      refine ⟨_, ?_, length_afterExponent_dropWhile_le exponent rest⟩
      simp only [Decimal.text_nil, List.nil_append, Numeral.fractionText,
        Option.elim_some, List.cons_append, afterNumeral?_point,
        afterDigits?_text_append filled, Option.map_some]
  · refine ⟨_, afterNumeral?_of_digits (afterDigits?_text_append empty _), ?_⟩
    rcases fraction with _ | digits
    · rcases exponent with _ | exponent
      · exact (length_afterExponent_le _).trans
          ((length_afterFraction_le _).trans shorter)
      · have absent : Decimal.Absent (exponent.text ++ rest) :=
          Decimal.absent_cons (isDigit_marker exponent.capital)
        simp only [Numeral.fractionText, Option.elim_none, List.nil_append,
          Exponent.tail, Option.elim_some]
        rw [Decimal.dropWhile_of_absent absent, afterFraction_text_append,
          afterExponent_text_append]
        exact shorter
    · have absent (tail : Bytes) : Decimal.Absent (point :: tail) :=
        Decimal.absent_cons isDigit_point
      simp only [Numeral.fractionText, Option.elim_some, List.cons_append]
      rw [Decimal.dropWhile_of_absent (absent _), afterFraction, if_pos rfl,
        Decimal.dropWhile_text_append]
      exact length_afterExponent_dropWhile_le exponent rest

end NumericFields.Floating.LiteralPrefix
