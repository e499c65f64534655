import NumericFields.Floating.Parse
import NumericFields.Proofs.Floating.Spelling

/-!
# The texts that a format reads

A format reads a text exactly if it spells a literal.  The bytes of a literal are all
below 0x80, so they are the encoding of a string, and a target that reads strings is
handed that string.
-/

namespace NumericFields.Floating

/-! ## Reading is sound -/

theorem Exponent.eq_text_of_read? {text : Bytes} {exponent : Exponent}
    (read : read? text = some exponent) : text = exponent.text := by
  cases text with
  | nil => contradiction
  | cons first rest =>
      rw [Exponent.read?] at read
      cases marked : capitalOfMarker? first with
      | none =>
          rw [marked] at read
          contradiction
      | some capital =>
          cases digits : Decimal.read? (Sign.take rest).2 with
          | none => simp [marked, digits] at read
          | some run =>
              simp only [marked, digits, Option.dite_none_right_eq_some] at read
              obtain ⟨written, same⟩ := read
              obtain rfl := Option.some.inj same
              rw [Exponent.text, ← Decimal.read?_eq_some_iff.mp digits, Sign.text_take,
                eq_marker_of_capitalOfMarker? marked]

namespace Numeral

theorem eq_tail_of_readExponent? {text : Bytes} {exponent : Option Exponent}
    (read : readExponent? text = some exponent) : text = Exponent.tail exponent := by
  cases text with
  | nil =>
      obtain rfl := Option.some.inj read
      rfl
  | cons first rest =>
      obtain ⟨exponent, found, rfl⟩ := Option.map_eq_some_iff.mp read
      exact Exponent.eq_text_of_read? found

theorem text_takeFraction (text : Bytes) :
    fractionText (takeFraction text).1 ++ (takeFraction text).2 = text := by
  cases text with
  | nil => rfl
  | cons first rest =>
      rw [takeFraction]
      split
      · next isPoint =>
          rw [fractionText, Option.elim_some, List.cons_append, Decimal.text_takeDigits,
            isPoint]
      · rfl

theorem eq_text_of_read? {text : Bytes} {numeral : Numeral}
    (read : read? text = some numeral) : text = numeral.text := by
  have whole := Decimal.text_takeDigits text
  have fraction := text_takeFraction (Decimal.takeDigits text).2
  rw [Numeral.read?] at read
  cases exponent : readExponent? (takeFraction (Decimal.takeDigits text).2).2 with
  | none => simp [exponent] at read
  | some parts =>
      simp only [exponent, Option.dite_none_right_eq_some] at read
      obtain ⟨written, same⟩ := read
      obtain rfl := Option.some.inj same
      rw [text_eq, ← eq_tail_of_readExponent? exponent, fraction, whole]

end Numeral

theorem Body.spelled_of_read? {body : Body} {text : Bytes}
    (read : Body.read? text = some body) : body.Spelled text := by
  rw [Body.read?] at read
  cases word : Word.read? text with
  | some name =>
      rw [word] at read
      obtain rfl := Option.some.inj read
      exact Word.read?_eq_some_iff.mp word
  | none =>
      rw [word] at read
      obtain ⟨parts, numeral, rfl⟩ := Option.map_eq_some_iff.mp read
      exact Numeral.eq_text_of_read? numeral

theorem Literal.read?_eq_some_iff {literal : Literal} {text : Bytes} :
    Literal.read? text = some literal ↔ literal.Spelled text := by
  refine ⟨fun read => ?_, Literal.read?_of_spelled⟩
  obtain ⟨body, unsigned, rfl⟩ := Option.map_eq_some_iff.mp read
  exact ⟨_, Body.spelled_of_read? unsigned, (Sign.text_take text).symm⟩

/-! ## Literals as strings -/

def Ascii (text : Bytes) : Prop := ∀ byte ∈ text, byte.toNat < 0x80

-- Named, since bytes are also a finite type, whose own instance would try all of them.
instance (text : Bytes) : Decidable (Ascii text) :=
  List.decidableBAll (fun byte : UInt8 => byte.toNat < 0x80) text

theorem Ascii.append {front back : Bytes} (hfront : Ascii front) (hback : Ascii back) :
    Ascii (front ++ back) :=
  List.forall_mem_append.mpr ⟨hfront, hback⟩

theorem Ascii.cons {first : UInt8} {rest : Bytes} (hfirst : first.toNat < 0x80)
    (hrest : Ascii rest) : Ascii (first :: rest) :=
  List.forall_mem_cons.mpr ⟨hfirst, hrest⟩

theorem ascii_nil : Ascii [] := List.forall_mem_nil _

theorem ascii_sign (sign : Option Sign) : Ascii (Sign.text sign) := by
  rcases sign with _ | _ | _ <;> decide

theorem ascii_digits (digits : List Digit) : Ascii (Decimal.text digits) := by
  intro byte mem
  obtain ⟨digit, -, rfl⟩ := List.mem_map.mp mem
  rw [Digit.toNat_byte]
  omega

theorem ascii_exponent (exponent : Option Exponent) : Ascii (Exponent.tail exponent) := by
  cases exponent with
  | none => exact ascii_nil
  | some exponent =>
      refine .cons ?_ ((ascii_sign _).append (ascii_digits _))
      cases exponent.capital <;> decide

theorem ascii_fraction (fraction : Option (List Digit)) :
    Ascii (Numeral.fractionText fraction) := by
  cases fraction with
  | none => exact ascii_nil
  | some digits => exact .cons (by decide) (ascii_digits digits)

theorem EitherCase.ascii {letters text : Bytes} (spelled : EitherCase letters text)
    (small : SmallLetters letters) : Ascii text := by
  induction spelled with
  | nil => exact ascii_nil
  | small letter rest ih =>
      obtain ⟨first, others⟩ := List.forall_mem_cons.mp small
      exact .cons (by omega) (ih others)
  | capital letter rest ih =>
      obtain ⟨first, others⟩ := List.forall_mem_cons.mp small
      refine .cons ?_ (ih others)
      rw [toNat_capital first]
      omega

theorem Literal.ascii_of_spelled {literal : Literal} {text : Bytes}
    (spelled : literal.Spelled text) : Ascii text := by
  obtain ⟨unsigned, body, rfl⟩ := spelled
  refine (ascii_sign _).append ?_
  cases named : literal.body with
  | word name =>
      rw [named] at body
      exact body.ascii name.smallLetters_text
  | numeral parts =>
      rw [named] at body
      obtain rfl := body
      rw [Numeral.text_eq]
      exact (ascii_digits _).append ((ascii_fraction _).append (ascii_exponent _))

theorem toUTF8_ofList_of_ascii {text : Bytes} (ascii : Ascii text) :
    (String.ofList (text.map Char.ofUInt8)).toUTF8 = text.toByteArray := by
  rw [String.toUTF8_eq_toByteArray, String.toByteArray_ofList]
  induction text with
  | nil => rfl
  | cons byte rest ih =>
      obtain ⟨small, ascii⟩ := List.forall_mem_cons.mp ascii
      have single : (Char.ofUInt8 byte).utf8Size = 1 := by
        rw [Char.utf8Size_eq_one_iff, UInt32.le_iff_toNat_le]
        exact Nat.le_of_lt_succ small
      have code : (Char.ofUInt8 byte).val.toUInt8 = byte := UInt8.toUInt8_toUInt32 byte
      rw [List.map_cons, List.utf8Encode_cons, List.utf8Encode_singleton, ih ascii,
        String.utf8EncodeChar_eq_singleton single, code, ← List.toByteArray_append,
        List.singleton_append]

/-- A target that reads strings: it refuses bytes that encode none. -/
def Target.ofString {α : Type u} (read? : String → Option α) (isInfinite : α → Bool) :
    Target α where
  read? text := (String.fromUTF8? text.toByteArray).bind read?
  isInfinite := isInfinite

theorem read?_ofString {α : Type u} (read? : String → Option α) (isInfinite : α → Bool)
    {text : Bytes} {string : String} (encoded : string.toUTF8 = text.toByteArray) :
    (Target.ofString read? isInfinite).read? text = read? string := by
  have valid : String.fromUTF8? text.toByteArray = some string := by
    rw [← encoded, String.fromUTF8?, String.toUTF8_eq_toByteArray,
      dif_pos string.isValidUTF8]
    rfl
  simp only [Target.ofString, valid, Option.bind_some]

end NumericFields.Floating
