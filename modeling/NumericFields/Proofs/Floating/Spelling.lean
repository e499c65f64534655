import NumericFields.Floating.Literal
import NumericFields.Proofs.Text.Decimal

/-!
# A text spells at most one literal

The bytes that begin the parts of a literal tell the parts apart: no digit is a
sign, a point, the marker of an exponent or a letter of a word.  So reading a
text inverts spelling a literal, part by part.  A word is spelled letter by letter,
in either case, and comparing it in small letters comes to the same.
-/

namespace NumericFields.Floating

/-! ## Letters -/

theorem toNat_capital {letter : UInt8}
    (small : 0x61 ≤ letter.toNat ∧ letter.toNat ≤ 0x7a) :
    (letter - 0x20).toNat = letter.toNat - 0x20 := by
  apply UInt8.toNat_sub_of_le
  simp only [UInt8.le_iff_toNat_le, UInt8.reduceToNat]
  omega

theorem lowerCase_eq_iff {letter byte : UInt8}
    (small : 0x61 ≤ letter.toNat ∧ letter.toNat ≤ 0x7a) :
    lowerCase byte = letter ↔ byte = letter ∨ byte = letter - 0x20 := by
  simp only [lowerCase, ← UInt8.toNat_inj, toNat_capital small, Bool.and_eq_true,
    decide_eq_true_eq, UInt8.le_iff_toNat_le]
  split
  · next bounds =>
      simp only [UInt8.toNat_add, UInt8.reduceToNat] at bounds ⊢
      omega
  · next outside =>
      simp only [UInt8.reduceToNat] at outside
      omega

def SmallLetters (letters : Bytes) : Prop :=
  ∀ letter ∈ letters, 0x61 ≤ letter.toNat ∧ letter.toNat ≤ 0x7a

-- Named, since bytes are also a finite type, whose own instance would try all of them.
instance (letters : Bytes) : Decidable (SmallLetters letters) :=
  List.decidableBAll
    (fun letter : UInt8 => 0x61 ≤ letter.toNat ∧ letter.toNat ≤ 0x7a) letters

theorem map_lowerCase_eq_iff {letters text : Bytes} (small : SmallLetters letters) :
    text.map lowerCase = letters ↔ EitherCase letters text := by
  constructor
  · intro folded
    induction text generalizing letters with
    | nil =>
        obtain rfl : [] = letters := folded
        exact .nil
    | cons byte rest ih =>
        subst folded
        obtain ⟨first, others⟩ := List.forall_mem_cons.mp small
        rw [List.map_cons]
        generalize same : lowerCase byte = letter at first ⊢
        rcases (lowerCase_eq_iff first).mp same with rfl | rfl
        · exact .small _ (ih others rfl)
        · exact .capital _ (ih others rfl)
  · intro spelled
    induction spelled with
    | nil => rfl
    | small letter rest ih =>
        obtain ⟨first, others⟩ := List.forall_mem_cons.mp small
        rw [List.map_cons, (lowerCase_eq_iff first).mpr (.inl rfl), ih others]
    | capital letter rest ih =>
        obtain ⟨first, others⟩ := List.forall_mem_cons.mp small
        rw [List.map_cons, (lowerCase_eq_iff first).mpr (.inr rfl), ih others]

theorem EitherCase.length_eq {letters text : Bytes} (spelled : EitherCase letters text) :
    text.length = letters.length := by
  induction spelled with
  | nil => rfl
  | small letter rest ih => rw [List.length_cons, List.length_cons, ih]
  | capital letter rest ih => rw [List.length_cons, List.length_cons, ih]

theorem Word.smallLetters_text (name : Word) : SmallLetters name.text := by
  cases name <;> decide

theorem Word.folds_iff (name : Word) {text : Bytes} :
    text.map lowerCase = name.text ↔ EitherCase name.text text :=
  map_lowerCase_eq_iff name.smallLetters_text

/-! ## Bytes that begin a part -/

theorem isDigit_point : isDigit point = false := by decide

theorem isDigit_marker (capital : Bool) : isDigit (Exponent.marker capital) = false := by
  cases capital <;> decide

theorem marker_ne_point (capital : Bool) : Exponent.marker capital ≠ point := by
  cases capital <;> decide

def Word.initial : Word → UInt8
  | .infinity | .inf => 0x69
  | .nan => 0x6e

def Word.Begins (name : Word) (byte : UInt8) : Prop :=
  byte = name.initial ∨ byte = name.initial - 0x20

def BeginsNumeral (byte : UInt8) : Prop := isDigit byte = true ∨ byte = point

instance (byte : UInt8) : Decidable (BeginsNumeral byte) :=
  inferInstanceAs (Decidable (_ ∨ _))

theorem Word.exists_cons_of_spelled {name : Word} {text : Bytes}
    (spelled : EitherCase name.text text) :
    ∃ first rest, text = first :: rest ∧ name.Begins first := by
  cases name <;> cases spelled with
    | small letter rest => exact ⟨_, _, rfl, .inl rfl⟩
    | capital letter rest => exact ⟨_, _, rfl, .inr rfl⟩

theorem Word.Begins.not_beginsNumeral {name : Word} {byte : UInt8}
    (begins : name.Begins byte) : ¬BeginsNumeral byte := by
  rcases begins with rfl | rfl <;> cases name <;> decide

theorem Word.Begins.ofByte? {name : Word} {byte : UInt8} (begins : name.Begins byte) :
    Sign.ofByte? byte = none := by
  rcases begins with rfl | rfl <;> cases name <;> decide

theorem BeginsNumeral.ofByte? {byte : UInt8} (begins : BeginsNumeral byte) :
    Sign.ofByte? byte = none := by
  rcases begins with digit | rfl
  · exact Sign.ofByte?_of_isDigit digit
  · decide

/-! ## Words -/

theorem Word.read?_eq_some_iff {name : Word} {text : Bytes} :
    Word.read? text = some name ↔ EitherCase name.text text := by
  rw [← name.folds_iff]
  constructor
  · intro found
    exact eq_of_beq (List.find?_some
      (p := fun word : Word => text.map lowerCase == word.text) found)
  · intro spelled
    rw [Word.read?, spelled]
    cases name <;> decide

/-! ## Exponents -/

@[simp] theorem Exponent.capitalOfMarker?_marker (capital : Bool) :
    capitalOfMarker? (marker capital) = some capital := by
  cases capital <;> decide

theorem Exponent.eq_marker_of_capitalOfMarker? {byte : UInt8} {capital : Bool}
    (read : capitalOfMarker? byte = some capital) : byte = marker capital := by
  unfold capitalOfMarker? at read
  split at read
  · next upper =>
      cases read
      exact upper
  · split at read
    · next lower =>
        cases read
        exact lower
    · contradiction

theorem Exponent.read?_text (exponent : Exponent) :
    Exponent.read? exponent.text = some exponent := by
  rcases exponent with ⟨capital, sign, digits, written⟩
  simp [Exponent.text, Exponent.read?,
    Sign.take_text_append sign (Sign.absent_text digits), written]

def Exponent.tail (exponent : Option Exponent) : Bytes := exponent.elim [] Exponent.text

theorem Exponent.absent_tail (exponent : Option Exponent) :
    Decimal.Absent (tail exponent) := by
  cases exponent with
  | none => exact Decimal.absent_nil
  | some exponent => exact Decimal.absent_cons (isDigit_marker exponent.capital)

theorem Numeral.readExponent?_tail (exponent : Option Exponent) :
    readExponent? (Exponent.tail exponent) = some exponent := by
  cases exponent with
  | none => rfl
  | some exponent =>
      have read := Exponent.read?_text exponent
      rw [Exponent.text] at read
      rw [Exponent.tail, Option.elim_some, Exponent.text, readExponent?, read]
      rfl

/-! ## Numerals -/

namespace Numeral

def fractionText (fraction : Option (List Digit)) : Bytes :=
  fraction.elim [] fun digits => point :: Decimal.text digits

theorem text_eq (numeral : Numeral) :
    numeral.text = Decimal.text numeral.whole ++
      (fractionText numeral.fraction ++ Exponent.tail numeral.exponent) :=
  List.append_assoc ..

theorem absent_fractionText (fraction : Option (List Digit)) {rest : Bytes}
    (absent : Decimal.Absent rest) : Decimal.Absent (fractionText fraction ++ rest) := by
  cases fraction with
  | none => exact absent
  | some digits => exact Decimal.absent_cons isDigit_point

theorem takeFraction_append (fraction : Option (List Digit))
    (exponent : Option Exponent) :
    takeFraction (fractionText fraction ++ Exponent.tail exponent) =
      (fraction, Exponent.tail exponent) := by
  cases fraction with
  | none =>
      cases exponent with
      | none => rfl
      | some exponent => exact if_neg (marker_ne_point exponent.capital)
  | some digits =>
      have taken := Decimal.takeDigits_text_append digits (Exponent.absent_tail exponent)
      simp [fractionText, takeFraction, taken]

theorem read?_text (numeral : Numeral) : read? numeral.text = some numeral := by
  have absent := absent_fractionText numeral.fraction
    (Exponent.absent_tail numeral.exponent)
  rw [text_eq, read?, Decimal.takeDigits_text_append numeral.whole absent]
  simp only [takeFraction_append, readExponent?_tail, dif_pos numeral.has_digit]

theorem exists_cons_of_text (numeral : Numeral) :
    ∃ first rest, numeral.text = first :: rest ∧ BeginsNumeral first := by
  rw [text_eq]
  rcases numeral with ⟨_ | ⟨digit, whole⟩, _ | fraction, exponent, written⟩
  · simp at written
  · exact ⟨point, _, rfl, .inr rfl⟩
  · exact ⟨digit.byte, _, rfl, .inl (isDigit_byte digit)⟩
  · exact ⟨digit.byte, _, rfl, .inl (isDigit_byte digit)⟩

end Numeral

/-! ## Literals -/

theorem Body.read?_of_spelled {body : Body} {text : Bytes}
    (spelled : body.Spelled text) : Body.read? text = some body := by
  cases body with
  | word name => rw [Body.read?, Word.read?_eq_some_iff.mpr spelled]
  | numeral parts =>
      obtain rfl := spelled
      obtain ⟨first, rest, text, begins⟩ := parts.exists_cons_of_text
      have noWord : Word.read? parts.text = none := by
        refine Option.eq_none_iff_forall_ne_some.mpr fun name found => ?_
        rw [Word.read?_eq_some_iff, text] at found
        obtain ⟨_, _, ⟨⟩, letter⟩ := Word.exists_cons_of_spelled found
        exact letter.not_beginsNumeral begins
      rw [Body.read?, noWord, Numeral.read?_text]
      rfl

theorem Body.absent_of_spelled {body : Body} {text : Bytes}
    (spelled : body.Spelled text) (rest : Bytes) : Sign.Absent (text ++ rest) := by
  cases body with
  | word name =>
      obtain ⟨first, rest, rfl, letter⟩ := Word.exists_cons_of_spelled spelled
      exact Sign.absent_cons letter.ofByte?
  | numeral parts =>
      obtain rfl := spelled
      obtain ⟨first, rest, text, begins⟩ := parts.exists_cons_of_text
      rw [text]
      exact Sign.absent_cons begins.ofByte?

theorem Literal.read?_of_spelled {literal : Literal} {text : Bytes}
    (spelled : literal.Spelled text) : Literal.read? text = some literal := by
  obtain ⟨unsigned, body, rfl⟩ := spelled
  have absent := Body.absent_of_spelled body []
  rw [List.append_nil] at absent
  rw [Literal.read?, Sign.take_text_append _ absent]
  simp only [Body.read?_of_spelled body, Option.map_some]

theorem Literal.eq_of_spelled {first second : Literal} {text : Bytes}
    (hfirst : first.Spelled text) (hsecond : second.Spelled text) : first = second := by
  have read := read?_of_spelled hfirst
  rw [read?_of_spelled hsecond] at read
  exact (Option.some.inj read).symm

end NumericFields.Floating
