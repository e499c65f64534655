import Mathlib.Tactic
import NumericFields.Text.Decimal

/-!
# Places of decimal notation

A digit weighs a power of ten by the number of digits after it.  Canonical
digits are those of the usual notation, as few as the number allows: there are
more than `places` of them exactly if the number reaches that power of ten.
`Sign.take` undoes writing a sign in front of text that has none of its own,
such as digits.
-/

namespace NumericFields

namespace Decimal

theorem foldl_shift (digits : List Digit) (total : Nat) :
    digits.foldl shift total = total * 10 ^ digits.length + value digits := by
  induction digits generalizing total with
  | nil => simp
  | cons digit rest ih =>
      rw [value, List.foldl_cons, List.foldl_cons, ih, ih (shift 0 digit)]
      simp only [shift, List.length_cons]
      ring

theorem value_cons (digit : Digit) (rest : List Digit) :
    value (digit :: rest) = digit.val * 10 ^ rest.length + value rest := by
  rw [value, List.foldl_cons, foldl_shift]
  simp [shift]

theorem value_append (front back : List Digit) :
    value (front ++ back) = value front * 10 ^ back.length + value back := by
  rw [value, List.foldl_append, foldl_shift]
  rfl

/-! ## The number of canonical digits -/

theorem digitsOnto_of_lt {number : Nat} (small : number < 10) (tail : List Digit) :
    digitsOnto number tail = Fin.ofNat 10 number :: tail := by
  rw [digitsOnto]
  exact if_pos small

theorem digitsOnto_of_le {number : Nat} (large : 10 ≤ number) (tail : List Digit) :
    digitsOnto number tail =
      digitsOnto (number / 10) (Fin.ofNat 10 number :: tail) := by
  rw [digitsOnto]
  exact if_neg (by omega)

theorem digitsOnto_eq_append (number : Nat) (tail : List Digit) :
    digitsOnto number tail = digits number ++ tail := by
  induction number using Nat.strong_induction_on generalizing tail with
  | _ number ih =>
      by_cases small : number < 10
      · rw [digits, digitsOnto_of_lt small, digitsOnto_of_lt small]
        rfl
      · have large : 10 ≤ number := by omega
        have smaller : number / 10 < number := by omega
        rw [digits, digitsOnto_of_le large, digitsOnto_of_le large,
          ih _ smaller, ih _ smaller [_], List.append_assoc]
        rfl

theorem map_digitChar_digits (number : Nat) :
    (digits number).map (fun digit => Nat.digitChar digit.val) =
      Nat.toDigits 10 number := by
  induction number using Nat.strong_induction_on with
  | _ number ih =>
      by_cases small : number < 10
      · rw [digits, digitsOnto_of_lt small, Nat.toDigits_of_lt_base small,
          List.map_singleton, Fin.val_ofNat, Nat.mod_eq_of_lt small]
      · have large : 10 ≤ number := by omega
        rw [digits, digitsOnto_of_le large, digitsOnto_eq_append, List.map_append,
          ih _ (by omega), Nat.toDigits_of_base_le (by decide) large]
        rfl

theorem digits_ne_nil (number : Nat) : digits number ≠ [] := by
  intro empty
  have none := map_digitChar_digits number
  rw [empty] at none
  exact Nat.toDigits_ne_nil none.symm

theorem length_digits_le_iff {number places : Nat} (room : 0 < places) :
    (digits number).length ≤ places ↔ number < 10 ^ places := by
  rw [← Nat.length_toDigits_le_iff (by decide) room, ← map_digitChar_digits,
    List.length_map]

theorem lt_length_digits_iff {number : Nat} (positive : 0 < number) (places : Nat) :
    places < (digits number).length ↔ 10 ^ places ≤ number := by
  cases places with
  | zero =>
      rw [List.length_pos_iff, pow_zero]
      exact iff_of_true (digits_ne_nil number) positive
  | succ places => rw [← not_le, length_digits_le_iff places.succ_pos, not_lt]

/-! ## Digits as bytes -/

@[simp] theorem text_nil : text [] = [] := rfl

@[simp] theorem text_cons (digit : Digit) (rest : List Digit) :
    text (digit :: rest) = digit.byte :: text rest := rfl

@[simp] theorem length_text (digits : List Digit) :
    (text digits).length = digits.length := List.length_map ..

theorem ofUInt8_byte (digit : Digit) :
    Char.ofUInt8 digit.byte = Nat.digitChar digit.val := by
  revert digit
  decide

theorem map_render (number : Nat) :
    (render number).map Char.ofUInt8 = Nat.toDigits 10 number := by
  rw [← map_digitChar_digits, render, text, List.map_map]
  exact List.map_congr_left fun digit _ => ofUInt8_byte digit

theorem isDigit_of_mem_text {digits : List Digit} {byte : UInt8}
    (mem : byte ∈ text digits) : isDigit byte = true := by
  obtain ⟨digit, -, rfl⟩ := List.mem_map.mp mem
  exact isDigit_byte digit

theorem text_injective : Function.Injective text := by
  refine List.map_injective_iff.mpr ?_
  intro first second same
  have read := congrArg Digit.ofByte? same
  simpa using read

theorem read?_eq_some_iff {bytes : Bytes} {digits : List Digit} :
    read? bytes = some digits ↔ bytes = text digits := by
  induction bytes generalizing digits with
  | nil => cases digits <;> simp [read?]
  | cons byte rest ih =>
      have step : read? (byte :: rest) =
          (Digit.ofByte? byte).bind fun digit => (read? rest).map (digit :: ·) := by
        simp only [read?, List.mapM_cons]
        cases Digit.ofByte? byte <;> cases rest.mapM Digit.ofByte? <;> rfl
      rw [step, Option.bind_eq_some_iff]
      simp only [Option.map_eq_some_iff, Digit.ofByte?_eq_some_iff, ih]
      constructor
      · rintro ⟨digit, rfl, digits, rfl, rfl⟩
        rfl
      · intro same
        cases digits with
        | nil => contradiction
        | cons digit digits =>
            cases same
            exact ⟨digit, rfl, digits, rfl, rfl⟩

@[simp] theorem read?_text (digits : List Digit) :
    read? (text digits) = some digits :=
  read?_eq_some_iff.mpr rfl

/-! ## The run of digits at the front of a text -/

/-- The text does not begin with a digit. -/
def Absent (text : Bytes) : Prop := ∀ first ∈ text.head?, isDigit first = false

theorem absent_nil : Absent [] := by
  simp [Absent]

theorem absent_cons {first : UInt8} {rest : Bytes} (stray : isDigit first = false) :
    Absent (first :: rest) := by
  simpa [Absent] using stray

theorem dropWhile_of_absent {rest : Bytes} (absent : Absent rest) :
    rest.dropWhile isDigit = rest := by
  cases rest with
  | nil => rfl
  | cons first rest => simp [absent first rfl]

theorem dropWhile_text_append (digits : List Digit) (rest : Bytes) :
    (text digits ++ rest).dropWhile isDigit = rest.dropWhile isDigit :=
  List.dropWhile_append_of_pos fun _ mem => isDigit_of_mem_text mem

theorem exists_text_append_dropWhile (bytes : Bytes) :
    ∃ digits, bytes = text digits ++ bytes.dropWhile isDigit := by
  refine ⟨(takeDigits bytes).1, ?_⟩
  rw [← takeDigits_rest, text_takeDigits]

theorem takeDigits_of_absent {rest : Bytes} (absent : Absent rest) :
    takeDigits rest = ([], rest) := by
  cases rest with
  | nil => rfl
  | cons first rest =>
      have stray := absent first rfl
      rw [isDigit, Option.isSome_eq_false_iff, Option.isNone_iff_eq_none] at stray
      rw [takeDigits, stray]

theorem takeDigits_text_append (digits : List Digit) {rest : Bytes}
    (absent : Absent rest) : takeDigits (text digits ++ rest) = (digits, rest) := by
  induction digits with
  | nil => exact takeDigits_of_absent absent
  | cons digit digits ih =>
      rw [text_cons, List.cons_append, takeDigits, Digit.ofByte?_byte]
      simp only [ih]

end Decimal

/-! ## Taking a sign off a text -/

namespace Sign

def apply (sign : Option Sign) (magnitude : Nat) : Int :=
  if sign = some .minus then -(magnitude : Int) else magnitude

/-- The text does not begin with a sign. -/
def Absent (text : Bytes) : Prop := ∀ first ∈ text.head?, ∀ sign : Sign, first ≠ sign.byte

@[simp] theorem text_none : text none = [] := rfl

@[simp] theorem text_some (sign : Sign) : text (some sign) = [sign.byte] := rfl

theorem isNegative_iff {sign : Option Sign} :
    isNegative sign = true ↔ sign = some .minus :=
  beq_iff_eq

theorem ofByte?_eq_none_iff {byte : UInt8} :
    ofByte? byte = none ↔ ∀ sign : Sign, byte ≠ sign.byte := by
  constructor
  · rintro other sign rfl
    rw [ofByte?_byte] at other
    contradiction
  · intro other
    rw [ofByte?, if_neg (other .plus), if_neg (other .minus)]

theorem ofByte?_of_isDigit {byte : UInt8} (digit : isDigit byte = true) :
    ofByte? byte = none := by
  unfold ofByte?
  split
  · next plus =>
      rw [plus] at digit
      contradiction
  · split
    · next minus =>
        rw [minus] at digit
        contradiction
    · rfl

theorem absent_nil : Absent [] := by
  simp [Absent]

theorem absent_cons {first : UInt8} {rest : Bytes} (none : ofByte? first = none) :
    Absent (first :: rest) := by
  rintro _ ⟨⟩
  exact ofByte?_eq_none_iff.mp none

theorem absent_digits (digits : List Digit) (rest : Bytes) (nonempty : digits ≠ []) :
    Absent (Decimal.text digits ++ rest) := by
  cases digits with
  | nil => contradiction
  | cons digit digits => exact absent_cons (ofByte?_of_isDigit (isDigit_byte digit))

theorem absent_text (digits : List Digit) : Absent (Decimal.text digits) := by
  intro first head
  exact ofByte?_eq_none_iff.mp
    (ofByte?_of_isDigit (Decimal.isDigit_of_mem_text (List.mem_of_mem_head? head)))

theorem take_of_absent {text : Bytes} (absent : Absent text) :
    take text = (none, text) := by
  cases text with
  | nil => rfl
  | cons first rest => rw [take, ofByte?_eq_none_iff.mpr (absent first rfl)]

theorem absent_of_take {text rest : Bytes} (taken : take text = (none, rest)) :
    Absent rest := by
  cases text with
  | nil =>
      cases taken
      exact absent_nil
  | cons first tail =>
      rw [take] at taken
      cases read : ofByte? first with
      | some sign =>
          rw [read] at taken
          cases taken
      | none =>
          rw [read] at taken
          cases taken
          exact absent_cons read

@[simp] theorem take_byte_cons (sign : Sign) (rest : Bytes) :
    take (sign.byte :: rest) = (some sign, rest) := by
  rw [take, ofByte?_byte]

theorem isNegative_iff_head {rest : Bytes} (absent : Absent rest) (sign : Option Sign) :
    isNegative sign = true ↔ (text sign ++ rest).head? = some minus.byte := by
  cases sign with
  | none => exact iff_of_false (by decide) fun head => absent _ head .minus rfl
  | some sign =>
      rw [text_some, List.singleton_append, List.head?_cons]
      cases sign <;> decide

theorem take_text_append (sign : Option Sign) {rest : Bytes} (absent : Absent rest) :
    take (text sign ++ rest) = (sign, rest) := by
  cases sign with
  | none => exact take_of_absent absent
  | some sign => exact take_byte_cons sign rest

end Sign

end NumericFields
