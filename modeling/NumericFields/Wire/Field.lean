import NumericFields.Text.Decimal
import NumericFields.Outcome
import NumericFields.Cursor

/-!
# Wire fields

A wire field is two, three or four bytes long and holds an unsigned number,
most significant byte first; encoding drops whatever lies above its bytes.
Storing one takes exactly that much memory, which the allocator may refuse.
Decoding reads a field off the front of a view and ignores what follows it.

A message lays fields end to end.  It is read field by field: each is decoded
from the front of a window, which then moves on by the width of the field, and
the first field that is not there ends the reading.
-/

namespace NumericFields

/-! ## Big-endian numbers -/

namespace BigEndian

def encode : Nat → Nat → Bytes
  | 0, _ => []
  | length + 1, number => encode length (number / 256) ++ [UInt8.ofNat number]

def decode (bytes : Bytes) : Nat :=
  bytes.foldl (fun total byte => 256 * total + byte.toNat) 0

@[simp] theorem length_encode (length number : Nat) :
    (encode length number).length = length := by
  induction length generalizing number with
  | zero => rfl
  | succ length ih => simp [encode, ih]

@[simp] theorem decode_nil : decode [] = 0 := rfl

theorem decode_concat (bytes : Bytes) (byte : UInt8) :
    decode (bytes ++ [byte]) = 256 * decode bytes + byte.toNat := by
  simp [decode]

theorem encode_decode (bytes : Bytes) :
    encode bytes.length (decode bytes) = bytes := by
  rw [← List.reverse_reverse bytes]
  induction bytes.reverse with
  | nil => rfl
  | cons byte rest ih =>
      have := byte.toNat_lt
      simp only [List.reverse_cons, decode_concat, List.length_append,
        List.length_cons, List.length_nil, Nat.zero_add, encode]
      rw [show (256 * decode rest.reverse + byte.toNat) / 256 =
        decode rest.reverse by omega, ih]
      congr 2
      apply UInt8.toNat_inj.mp
      rw [UInt8.toNat_ofNat']
      omega

end BigEndian

/-! ## Fields -/

namespace Wire

inductive Width where
  | two
  | three
  | four
  deriving DecidableEq, Repr

def Width.byteCount : Width → Nat
  | .two => 2
  | .three => 3
  | .four => 4

structure Field where
  bytes : Bytes
  deriving DecidableEq, Repr

/-- Whether a request for a number of bytes is granted. -/
abbrev Allocator := Nat → Bool

def Allocator.granting : Allocator := fun _ => true

def Allocator.refusing : Allocator := fun _ => false

namespace Field

def view (field : Field) : View := some field.bytes

def ofValue (width : Width) (value : UInt32) : Field :=
  ⟨BigEndian.encode width.byteCount value.toNat⟩

def store (memory : Allocator) (bytes : Bytes) : Outcome Field :=
  if memory bytes.length then
    .success ⟨bytes⟩
  else
    .reject .allocation (some bytes)

def byteText (byte : UInt8) : List Char :=
  [hexDigit (byte.toNat / 16), hexDigit (byte.toNat % 16)].map Char.toUpper

def text (field : Field) : String :=
  "NetworkBytes(" ++
    String.ofList ([' '].intercalate (field.bytes.map byteText)) ++ ")"

end Field

def encode (memory : Allocator) (width : Width) (value : UInt32) : Outcome Field :=
  Field.store memory (Field.ofValue width value).bytes

def decode (width : Width) (view : View) : Outcome UInt32 :=
  match view with
  | some bytes =>
      if width.byteCount ≤ bytes.length then
        .success (UInt32.ofNat (BigEndian.decode (bytes.take width.byteCount)))
      else
        .reject .invalidInput view
  | none => .reject .invalidInput view

def encodeUInt16 (memory : Allocator) (value : UInt16) : Outcome Field :=
  encode memory .two value.toUInt32

/-- The low 24 bits of a value are kept. -/
def encodeUInt24 (memory : Allocator) (value : UInt32) : Outcome Field :=
  encode memory .three value

def encodeUInt32 (memory : Allocator) (value : UInt32) : Outcome Field :=
  encode memory .four value

/-- Two bytes are joined directly, without the detour over 32 bits. -/
def decodeUInt16 (view : View) : Outcome UInt16 :=
  match view with
  | some (high :: low :: _) => .success (high.toUInt16 <<< 8 ||| low.toUInt16)
  | _ => .reject .invalidInput view

def decodeUInt24 (view : View) : Outcome UInt32 := decode .three view

def decodeUInt32 (view : View) : Outcome UInt32 := decode .four view

end Wire

/-! ## Messages -/

namespace Wire.Message

def bytes (fields : List (Width × UInt32)) : Bytes :=
  fields.flatMap fun (width, value) => (Field.ofValue width value).bytes

/-- The values read, why reading stopped early if it did, and the window left. -/
structure Reading where
  values : List UInt32
  failure : Option Failure
  window : Window
  deriving DecidableEq, Repr

def read (window : Window) : List Width → Reading
  | [] => ⟨[], none, window⟩
  | width :: widths =>
      match (decode width window.view).result with
      | .ok value =>
          let rest := read (window.advance (.ofNat width.byteCount)) widths
          ⟨value :: rest.values, rest.failure, rest.window⟩
      | .error failure => ⟨[], some failure, window⟩

end Wire.Message

end NumericFields
