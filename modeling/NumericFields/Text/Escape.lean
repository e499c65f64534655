import NumericFields.Text.Decimal

/-!
# Escaped bytes

Bytes are shown as printable characters.  Tab, line feed, carriage return, both
quotes and the backslash take two characters, other printable bytes stand for
themselves, and every remaining byte is written as a backslash, an `x` and two
small hexadecimal digits.  `decode` reads exactly these forms, so an escaped
text determines its bytes.

Diagnostics show their input escaped and, when it is long, cut off: `shown`
bytes, three points and the number of bytes left out.  Inputs up to `slack`
bytes longer are still shown whole, since the note would be no shorter than the
bytes it replaces.
-/

namespace NumericFields

def hexDigit (value : Nat) : Char := Nat.digitChar value

def hexDigitValue? (digit : Char) : Option Nat :=
  (List.range 16).find? fun value => hexDigit value == digit

theorem hexDigitValue?_hexDigit :
    ∀ value : Fin 16, hexDigitValue? (hexDigit value) = some value.val := by
  decide

namespace Escape

def backslash : Char := Char.ofNat 0x5c

/-- The bytes with an escape of two characters, and the second of the two. -/
def letters : List (UInt8 × Char) :=
  [(0x09, 't'), (0x0a, 'n'), (0x0d, 'r'), (0x22, Char.ofNat 0x22),
    (0x27, Char.ofNat 0x27), (0x5c, backslash)]

def letter? (byte : UInt8) : Option Char := letters.lookup byte

def byteOfLetter? (letter : Char) : Option UInt8 :=
  (letters.find? fun entry => entry.2 == letter).map Prod.fst

def isPrintable (byte : UInt8) : Bool := 0x20 ≤ byte && byte ≤ 0x7e

def encodeByte (byte : UInt8) : List Char :=
  match letter? byte with
  | some letter => [backslash, letter]
  | none =>
      if isPrintable byte then
        [Char.ofUInt8 byte]
      else
        [backslash, 'x', hexDigit (byte.toNat / 16), hexDigit (byte.toNat % 16)]

def encode (bytes : Bytes) : List Char := bytes.flatMap encodeByte

def decodeByte? : List Char → Option (UInt8 × List Char)
  | [] => none
  | first :: rest =>
      if first = backslash then
        match rest with
        | 'x' :: high :: low :: rest =>
            match hexDigitValue? high, hexDigitValue? low with
            | some high, some low => some (UInt8.ofNat (16 * high + low), rest)
            | _, _ => none
        | letter :: rest =>
            (byteOfLetter? letter).map fun byte => (byte, rest)
        | [] => none
      else
        let byte := UInt8.ofNat first.toNat
        if isPrintable byte && (letter? byte).isNone && first.toNat < 0x80 then
          some (byte, rest)
        else
          none

theorem decodeByte?_shorter {text rest : List Char} {byte : UInt8}
    (h : decodeByte? text = some (byte, rest)) : rest.length < text.length := by
  cases text with
  | nil => contradiction
  | cons first tail =>
      simp only [decodeByte?] at h
      split at h
      · next escape =>
          split at h
          · next high low behind =>
              split at h
              · next read read' =>
                  cases h
                  simp only [List.length_cons]
                  omega
              · contradiction
          · next letter behind other =>
              obtain ⟨byte, read, same⟩ := Option.map_eq_some_iff.mp h
              cases same
              simp only [List.length_cons]
              omega
          · contradiction
      · next plain =>
          split at h
          · next shown =>
              cases h
              exact Nat.lt_succ_self _
          · contradiction

/-- Undoes `encode`; text that no bytes are escaped to is refused. -/
def decode (text : List Char) : Option Bytes :=
  match text with
  | [] => some []
  | first :: tail =>
      match _read : decodeByte? (first :: tail) with
      | some (byte, rest) => (decode rest).map (byte :: ·)
      | none => none
termination_by text.length
decreasing_by exact decodeByte?_shorter _read

theorem decode_of_decodeByte? {text rest : List Char} {byte : UInt8}
    (read : decodeByte? text = some (byte, rest)) :
    decode text = (decode rest).map (byte :: ·) := by
  cases text with
  | nil => contradiction
  | cons first tail =>
      rw [decode]
      split
      · next byte' rest' read' =>
          rw [read] at read'
          cases read'
          rfl
      · next unread =>
          rw [read] at unread
          contradiction

theorem decodeByte?_hex (high low : Nat) (hhigh : high < 16) (hlow : low < 16)
    (rest : List Char) :
    decodeByte? (backslash :: 'x' :: hexDigit high :: hexDigit low :: rest) =
      some (UInt8.ofNat (16 * high + low), rest) := by
  have readHigh := hexDigitValue?_hexDigit ⟨high, hhigh⟩
  have readLow := hexDigitValue?_hexDigit ⟨low, hlow⟩
  simp [decodeByte?, readHigh, readLow]

theorem decodeByte?_letter {letter : Char} (notHex : letter ≠ 'x') (rest : List Char) :
    decodeByte? (backslash :: letter :: rest) =
      (byteOfLetter? letter).map fun byte => (byte, rest) := by
  rw [decodeByte?, if_pos rfl]
  intro _ _ _ hex
  exact absurd hex notHex

@[simp] theorem toNat_ofUInt8 (byte : UInt8) :
    (Char.ofUInt8 byte).toNat = byte.toNat := rfl

theorem letters_read_back :
    letters.all (fun (byte, letter) =>
      letter != 'x' && byteOfLetter? letter == some byte) = true := by
  decide

theorem byteOfLetter?_of_letter? {byte : UInt8} {letter : Char}
    (h : letter? byte = some letter) :
    letter ≠ 'x' ∧ byteOfLetter? letter = some byte := by
  obtain ⟨front, back, split, -⟩ := List.lookup_eq_some_iff.mp h
  have entry : (byte, letter) ∈ letters := by simp [split]
  simpa using List.all_eq_true.mp letters_read_back _ entry

theorem ofUInt8_ne_backslash {byte : UInt8} (h : letter? byte = none) :
    Char.ofUInt8 byte ≠ backslash := by
  intro here
  have code : byte.toNat = (0x5c : UInt8).toNat := by
    rw [← toNat_ofUInt8, here]
    rfl
  rw [UInt8.toNat_inj.mp code] at h
  contradiction

theorem decodeByte?_encodeByte (byte : UInt8) (rest : List Char) :
    decodeByte? (encodeByte byte ++ rest) = some (byte, rest) := by
  unfold encodeByte
  split
  · next letter read =>
      obtain ⟨notHex, readBack⟩ := byteOfLetter?_of_letter? read
      simp only [List.cons_append, List.nil_append, decodeByte?_letter notHex, readBack,
        Option.map_some]
  · next read =>
      split
      · next printable =>
          have small : byte.toNat < 128 := by
            simp only [isPrintable, Bool.and_eq_true, decide_eq_true_eq,
              UInt8.le_iff_toNat_le] at printable
            simp at printable
            omega
          simp [decodeByte?, ofUInt8_ne_backslash read, read, printable, small]
      · simp only [List.cons_append, List.nil_append]
        have := byte.toNat_lt
        rw [decodeByte?_hex _ _ (by omega) (by omega)]
        simp [Nat.div_add_mod]

theorem decode_encodeByte_append (byte : UInt8) (rest : List Char) :
    decode (encodeByte byte ++ rest) = (decode rest).map (byte :: ·) :=
  decode_of_decodeByte? (decodeByte?_encodeByte byte rest)

@[simp] theorem decode_encode (bytes : Bytes) :
    decode (encode bytes) = some bytes := by
  induction bytes with
  | nil => simp [encode, decode]
  | cons byte bytes ih =>
      rw [encode, List.flatMap_cons, decode_encodeByte_append, ← encode, ih]
      rfl

theorem encode_append (front back : Bytes) :
    encode (front ++ back) = encode front ++ encode back := by
  simp [encode]

end Escape

/-! ## Excerpts -/

structure Cutoff where
  shown : Nat
  slack : Nat
  deriving DecidableEq, Repr

def Cutoff.diagnostic : Cutoff := ⟨64, 8⟩

namespace Excerpt

def omission (count : Nat) : List Char :=
  "... ".toList ++ (Decimal.render count).map Char.ofUInt8 ++ " more bytes".toList

def text (cutoff : Cutoff) (bytes : Bytes) : List Char :=
  if cutoff.shown + cutoff.slack < bytes.length then
    Escape.encode (bytes.take cutoff.shown) ++
      omission (bytes.length - cutoff.shown)
  else
    Escape.encode bytes

end Excerpt

end NumericFields
