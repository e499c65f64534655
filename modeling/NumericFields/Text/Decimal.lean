/-!
# Decimal text

Text is a list of bytes.  A digit is a value below ten, written as one byte; white
space and letter case are those of plain seven-bit text, whatever the locale.  A number
may carry one sign in front.  `Decimal.value` is what a run of digits denotes, most
significant digit first and without any bound, and `Decimal.digits` the canonical run
of a number, free of leading zeros except for zero itself, which is one digit long.
-/

namespace NumericFields

/-! ## Bytes of numeric text -/

abbrev Bytes := List UInt8

abbrev Digit := Fin 10

def Digit.byte (digit : Digit) : UInt8 := UInt8.ofNat (0x30 + digit.val)

def Digit.ofByte? (byte : UInt8) : Option Digit :=
  if h : 0x30 ≤ byte.toNat ∧ byte.toNat < 0x3a then
    some ⟨byte.toNat - 0x30, by omega⟩
  else
    none

@[simp] theorem Digit.toNat_byte (digit : Digit) :
    digit.byte.toNat = 0x30 + digit.val := by
  have := digit.isLt
  simp only [Digit.byte, UInt8.toNat_ofNat']
  omega

@[simp] theorem Digit.ofByte?_byte (digit : Digit) :
    Digit.ofByte? digit.byte = some digit := by
  have := digit.isLt
  simp [Digit.ofByte?]
  omega

theorem Digit.eq_byte_of_ofByte? {byte : UInt8} {digit : Digit}
    (h : Digit.ofByte? byte = some digit) : byte = digit.byte := by
  unfold Digit.ofByte? at h
  split at h
  · next bounds =>
      obtain rfl := Option.some.inj h
      apply UInt8.toNat_inj.mp
      rw [Digit.toNat_byte]
      simp only
      omega
  · contradiction

theorem Digit.ofByte?_eq_some_iff {byte : UInt8} {digit : Digit} :
    Digit.ofByte? byte = some digit ↔ byte = digit.byte :=
  ⟨Digit.eq_byte_of_ofByte?, fun h => h ▸ Digit.ofByte?_byte digit⟩

def isDigit (byte : UInt8) : Bool := (Digit.ofByte? byte).isSome

@[simp] theorem isDigit_byte (digit : Digit) : isDigit digit.byte = true := by
  simp [isDigit]

def isSpace (byte : UInt8) : Bool :=
  byte == 0x20 || (0x09 ≤ byte && byte ≤ 0x0d)

def dropSpace (text : Bytes) : Bytes := text.dropWhile isSpace

def lowerCase (byte : UInt8) : UInt8 :=
  if 0x41 ≤ byte && byte ≤ 0x5a then byte + 0x20 else byte

/-! ## Signs -/

inductive Sign where
  | plus
  | minus
  deriving DecidableEq, Repr

namespace Sign

def byte : Sign → UInt8
  | .plus => 0x2b
  | .minus => 0x2d

def ofByte? (byte : UInt8) : Option Sign :=
  if byte = Sign.plus.byte then some .plus
  else if byte = Sign.minus.byte then some .minus
  else none

def text (sign : Option Sign) : Bytes := sign.toList.map byte

def isNegative (sign : Option Sign) : Bool := sign == some .minus

def take : Bytes → Option Sign × Bytes
  | [] => (none, [])
  | first :: rest =>
      match ofByte? first with
      | some sign => (some sign, rest)
      | none => (none, first :: rest)

@[simp] theorem ofByte?_byte (sign : Sign) : ofByte? sign.byte = some sign := by
  cases sign <;> decide

theorem eq_byte_of_ofByte? {byte : UInt8} {sign : Sign}
    (h : ofByte? byte = some sign) : byte = sign.byte := by
  unfold ofByte? at h
  split at h
  · next plus =>
      obtain rfl := Option.some.inj h
      exact plus
  · split at h
    · next minus =>
        obtain rfl := Option.some.inj h
        exact minus
    · contradiction

theorem text_take (text : Bytes) :
    Sign.text (take text).1 ++ (take text).2 = text := by
  cases text with
  | nil => rfl
  | cons first rest =>
      simp only [take]
      cases h : ofByte? first with
      | none => rfl
      | some sign =>
          rw [eq_byte_of_ofByte? h]
          rfl

end Sign

/-! ## Runs of digits -/

namespace Decimal

def shift (total : Nat) (digit : Digit) : Nat := 10 * total + digit.val

def value (digits : List Digit) : Nat := digits.foldl shift 0

/-- The canonical digits of `number`, followed by `tail`. -/
def digitsOnto (number : Nat) (tail : List Digit) : List Digit :=
  let tail := Fin.ofNat 10 number :: tail
  if number < 10 then tail else digitsOnto (number / 10) tail
termination_by number

def digits (number : Nat) : List Digit := digitsOnto number []

def text (digits : List Digit) : Bytes := digits.map Digit.byte

def render (number : Nat) : Bytes := text (digits number)

def takeDigits : Bytes → List Digit × Bytes
  | [] => ([], [])
  | byte :: rest =>
      match Digit.ofByte? byte with
      | some digit =>
          let (digits, rest) := takeDigits rest
          (digit :: digits, rest)
      | none => ([], byte :: rest)

def read? (bytes : Bytes) : Option (List Digit) := bytes.mapM Digit.ofByte?

@[simp] theorem value_nil : value [] = 0 := rfl

theorem foldl_digitsOnto (number : Nat) (tail : List Digit) :
    (digitsOnto number tail).foldl shift 0 = tail.foldl shift number := by
  fun_induction digitsOnto number tail with
  | case1 number tail onto small =>
      simp [onto, shift, Fin.ofNat, Nat.mod_eq_of_lt small]
  | case2 number tail onto large ih =>
      rw [ih]
      simp [onto, shift, Fin.ofNat, Nat.div_add_mod]

@[simp] theorem value_digits (number : Nat) : value (digits number) = number := by
  rw [value, digits, foldl_digitsOnto]
  rfl

theorem text_takeDigits (bytes : Bytes) :
    text (takeDigits bytes).1 ++ (takeDigits bytes).2 = bytes := by
  fun_induction takeDigits bytes with
  | case1 => rfl
  | case2 byte rest digit read digits rest' split ih =>
      rw [split] at ih
      simp only [text, List.map_cons, List.cons_append] at ih ⊢
      rw [ih, Digit.eq_byte_of_ofByte? read]
  | case3 => rfl

theorem takeDigits_rest (bytes : Bytes) :
    (takeDigits bytes).2 = bytes.dropWhile isDigit := by
  fun_induction takeDigits bytes with
  | case1 => rfl
  | case2 byte rest digit read digits rest' split ih =>
      rw [split] at ih
      simp [isDigit, read, ← ih]
  | case3 byte rest read => simp [isDigit, read]

end Decimal

end NumericFields
