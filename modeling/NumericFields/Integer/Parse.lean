import NumericFields.Integer.Accumulator
import NumericFields.Text.Decimal
import NumericFields.Integer.Kind
import NumericFields.Outcome

/-!
# Integers from text

Decimal text of a whole view becomes an integer: no white space, no separators,
no other bases.  A sign is the first byte or none, and only where the kind has
one; anywhere else it is a byte that is no digit.  A sign alone is refused rather
than read as zero.  The magnitude is read first, so a positive value beyond the
greatest one is caught when the sign is applied, and a value out of range is an
overflow, never a wrapped number.
-/

namespace NumericFields

/-! ## Signed text -/

namespace Integer

def splitSign (signedness : Signedness) (text : Bytes) : Option Sign × Bytes :=
  match signedness with
  | .unsigned => (none, text)
  | .signed => Sign.take text

def applySign (kind : Kind) (negative : Bool) (magnitude : Nat) :
    Except Failure Int :=
  if !negative && kind.positiveMax < magnitude then
    .error .overflow
  else
    match Register.signed? (Int.ofNat magnitude) with
    | none => .error .overflow
    | some number =>
        if negative then (Register.neg? number).elim (.error .overflow) .ok
        else .ok number

def read (kind : Kind) (text : Bytes) : Except Failure Int :=
  let (sign, digits) := splitSign kind.signedness text
  match digits, text with
  | [], alone :: _ => .error (.nonNumeric alone)
  | _, _ =>
      match Accumulator.gather kind digits with
      | .error failure => .error failure
      | .ok sum => applySign kind (Sign.isNegative sign) sum.value

/-! ## Views -/

def readView (kind : Kind) (view : View) : Outcome Int :=
  .reading view (read kind)

def parse {α : Type u} (target : Target α) (view : View) : Outcome α :=
  (readView target.kind view).convert target.ofInt?

/-- Unsigned text bounded to a width, extended with zeros to 64 bits. -/
def parseUnsigned (width : Width) (view : View) : Outcome UInt64 :=
  (readView ⟨width, .unsigned⟩ view).convert Target.toUInt64?

def parseSigned (width : Width) (view : View) : Outcome Int64 :=
  (readView ⟨width, .signed⟩ view).convert Target.toInt64?

def parseUInt8 (view : View) : Outcome UInt8 := parse .uint8 view

def parseUInt16 (view : View) : Outcome UInt16 := parse .uint16 view

def parseUInt32 (view : View) : Outcome UInt32 := parse .uint32 view

def parseUInt64 (view : View) : Outcome UInt64 := parse .uint64 view

def parseInt8 (view : View) : Outcome Int8 := parse .int8 view

def parseInt16 (view : View) : Outcome Int16 := parse .int16 view

def parseInt32 (view : View) : Outcome Int32 := parse .int32 view

def parseInt64 (view : View) : Outcome Int64 := parse .int64 view

def parseSize (view : View) : Outcome UInt64 := parse .size view

def parseDistance (view : View) : Outcome Int64 := parse .distance view

end Integer

end NumericFields
