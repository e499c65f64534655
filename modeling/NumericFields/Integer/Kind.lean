/-!
# Integer kinds and targets

A kind is a width in bits and a signedness.  While digits are read the sign is
not yet applied, so a signed kind admits one magnitude more than its greatest
positive value: that of its minimum.

A target names the kind whose text it reads and converts the number read.  The
conversion may refuse, even a number of the kind: targets are open to callers.
The built-in ones are the machine integers, whose own range is that of their
kind.
-/

namespace NumericFields

namespace Integer

inductive Width where
  | w8
  | w16
  | w32
  | w64
  deriving DecidableEq, Repr

namespace Width

def bits : Width → Nat
  | .w8 => 8
  | .w16 => 16
  | .w32 => 32
  | .w64 => 64

def unsignedMax (width : Width) : Nat := (1 <<< width.bits) - 1

def signedMax (width : Width) : Nat := (1 <<< (width.bits - 1)) - 1

def signedMinMagnitude (width : Width) : Nat := 1 <<< (width.bits - 1)

end Width

inductive Signedness where
  | unsigned
  | signed
  deriving DecidableEq, Repr

structure Kind where
  width : Width
  signedness : Signedness
  deriving DecidableEq, Repr

namespace Kind

/-- The greatest magnitude that may arise before the sign is known. -/
def magnitudeLimit (kind : Kind) : Nat :=
  match kind.signedness with
  | .unsigned => kind.width.unsignedMax
  | .signed => kind.width.signedMinMagnitude

/-- The greatest value, which also caps the weight of every digit. -/
def positiveMax (kind : Kind) : Nat :=
  match kind.signedness with
  | .unsigned => kind.width.unsignedMax
  | .signed => kind.width.signedMax

theorem positiveMax_le_magnitudeLimit (kind : Kind) :
    kind.positiveMax ≤ kind.magnitudeLimit := by
  rcases kind with ⟨width, signedness⟩
  cases signedness <;> cases width <;> decide

theorem magnitudeLimit_le_succ_positiveMax (kind : Kind) :
    kind.magnitudeLimit ≤ kind.positiveMax + 1 := by
  rcases kind with ⟨width, signedness⟩
  cases signedness <;> cases width <;> decide

theorem magnitudeLimit_lt (kind : Kind) : kind.magnitudeLimit < UInt64.size := by
  rcases kind with ⟨width, signedness⟩
  cases signedness <;> cases width <;> decide

end Kind

/-! ## Targets -/

structure Target (α : Type u) where
  kind : Kind
  ofInt? : Int → Option α

namespace Target

def uint8 : Target UInt8 where
  kind := ⟨.w8, .unsigned⟩
  ofInt? number :=
    if 0 ≤ number ∧ number < UInt8.size then some (UInt8.ofNat number.toNat) else none

def uint16 : Target UInt16 where
  kind := ⟨.w16, .unsigned⟩
  ofInt? number :=
    if 0 ≤ number ∧ number < UInt16.size then some (UInt16.ofNat number.toNat) else none

def uint32 : Target UInt32 where
  kind := ⟨.w32, .unsigned⟩
  ofInt? number :=
    if 0 ≤ number ∧ number < UInt32.size then some (UInt32.ofNat number.toNat) else none

def toUInt64? (number : Int) : Option UInt64 :=
  if 0 ≤ number ∧ number < UInt64.size then some (UInt64.ofNat number.toNat) else none

def uint64 : Target UInt64 := ⟨⟨.w64, .unsigned⟩, toUInt64?⟩

def int8 : Target Int8 where
  kind := ⟨.w8, .signed⟩
  ofInt? number :=
    if Int8.minValue.toInt ≤ number ∧ number ≤ Int8.maxValue.toInt then
      some (Int8.ofInt number)
    else
      none

def int16 : Target Int16 where
  kind := ⟨.w16, .signed⟩
  ofInt? number :=
    if Int16.minValue.toInt ≤ number ∧ number ≤ Int16.maxValue.toInt then
      some (Int16.ofInt number)
    else
      none

def int32 : Target Int32 where
  kind := ⟨.w32, .signed⟩
  ofInt? number :=
    if Int32.minValue.toInt ≤ number ∧ number ≤ Int32.maxValue.toInt then
      some (Int32.ofInt number)
    else
      none

def toInt64? (number : Int) : Option Int64 :=
  if Int64.minValue.toInt ≤ number ∧ number ≤ Int64.maxValue.toInt then
    some (Int64.ofInt number)
  else
    none

def int64 : Target Int64 := ⟨⟨.w64, .signed⟩, toInt64?⟩

/-- Sizes and addresses are words of 64 bits. -/
def size : Target UInt64 := ⟨⟨.w64, .unsigned⟩, toUInt64?⟩

def distance : Target Int64 := ⟨⟨.w64, .signed⟩, toInt64?⟩

def between (kind : Kind) (least greatest : Int) : Target Int where
  kind := kind
  ofInt? number :=
    if least ≤ number ∧ number ≤ greatest then some number else none

end Target

end Integer

end NumericFields
