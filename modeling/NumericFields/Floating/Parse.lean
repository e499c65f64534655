import NumericFields.Floating.Literal
import NumericFields.Floating.Binary
import NumericFields.Integer.Kind
import NumericFields.Outcome

/-!
# Floating-point numbers from text

The literal at the front of a view is read by the target; white space before it
and anything behind it are ignored.  The literal is the longest text there that is
one: a word is tried before its own beginnings, the point of a numeral belongs to
it even without digits behind, and an exponent without digits is left to the rest
of the text.

A target reads the text of a literal by a rule of its own, which may refuse it,
and says which of its values are infinite.  Targets are open to callers; the
built-in ones are the two binary formats.  Numbers too small for them quietly
become subnormal or zero.  A numeral can be infinite only by overflow, so that
is what it is reported as; a word may well be.
-/

namespace NumericFields

/-! ## The literal at the front of a text -/

namespace Floating

structure LiteralPrefix where
  text : Bytes
  isFinite : Bool
  deriving DecidableEq, Repr

namespace LiteralPrefix

def dropSign (text : Bytes) : Bytes := (Sign.take text).2

def afterWord? (text : Bytes) (word : Word) : Option Bytes :=
  if (text.take word.text.length).map lowerCase = word.text then
    some (text.drop word.text.length)
  else
    none

def afterDigits? : Bytes → Option Bytes
  | [] => none
  | first :: rest =>
      if isDigit first then some (rest.dropWhile isDigit) else none

/-- The text behind the exponent at its front, or all of it without one. -/
def afterExponent : Bytes → Bytes
  | [] => []
  | first :: rest =>
      if (Exponent.capitalOfMarker? first).isSome then
        (afterDigits? (dropSign rest)).getD (first :: rest)
      else
        first :: rest

def afterNumeral? (text : Bytes) : Option Bytes :=
  match afterDigits? text, text.dropWhile isDigit with
  | some _, first :: rest =>
      if first = point then
        some (afterExponent (rest.dropWhile isDigit))
      else
        some (afterExponent (first :: rest))
  | some _, [] => some []
  | none, first :: rest =>
      if first = point then (afterDigits? rest).map afterExponent else none
  | none, [] => none

def find? (text : Bytes) : Option LiteralPrefix :=
  let literal := dropSpace text
  let unsigned := dropSign literal
  let before (rest : Bytes) : Bytes :=
    literal.take (literal.length - rest.length)
  match Word.all.findSome? (afterWord? unsigned) with
  | some rest => some ⟨before rest, false⟩
  | none =>
      match afterNumeral? unsigned with
      | some rest => some ⟨before rest, true⟩
      | none => none

end LiteralPrefix

/-! ## Targets -/

structure Target (α : Type u) where
  read? : Bytes → Option α
  isInfinite : α → Bool

namespace Target

def binary (format : Format) : Target (Binary format) where
  read? text := (Literal.read? text).map .ofLiteral
  isInfinite := Binary.isInfinite

def single : Target (Binary .single) := binary .single

def double : Target (Binary .double) := binary .double

/-- Keeps the text of the literal, and calls all or none of them infinite. -/
def verbatim (infinite : Bool) : Target Bytes where
  read? := some
  isInfinite _ := infinite

def readInt64? (text : Bytes) : Option Int64 :=
  let (sign, unsigned) := Sign.take text
  match Decimal.read? unsigned with
  | none | some [] => none
  | some (first :: rest) =>
      let magnitude := Int.ofNat (Decimal.value (first :: rest))
      Integer.Target.toInt64?
        (if Sign.isNegative sign then -magnitude else magnitude)

/-- Reads integers, and calls those beyond the limit in magnitude infinite. -/
def whole (limit : Nat) : Target Int64 where
  read? := readInt64?
  isInfinite number := limit < number.toInt.natAbs

end Target

/-! ## Parsing -/

/-- The byte at which a text stops being a number: the first behind the white
space, or the last of the white space if there is nothing else. -/
def rejectedByte (text : Bytes) : UInt8 :=
  ((dropSpace text).head?.or text.getLast?).getD 0

def read {α : Type u} (target : Target α) (text : Bytes) : Except Failure α :=
  match LiteralPrefix.find? text with
  | none => .error (.nonNumeric (rejectedByte text))
  | some found =>
      match target.read? found.text with
      | none => .error (.nonNumeric (rejectedByte text))
      | some value =>
          if found.isFinite && target.isInfinite value then .error .overflow
          else .ok value

def parse {α : Type u} (target : Target α) (view : View) : Outcome α :=
  .reading view (read target)

def parseSingle (view : View) : Outcome (Binary .single) := parse .single view

def parseDouble (view : View) : Outcome (Binary .double) := parse .double view

end Floating

end NumericFields
