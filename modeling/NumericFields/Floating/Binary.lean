import NumericFields.Floating.Literal

/-!
# Binary floating-point words

A format fixes the number of exponent and fraction bits.  A datum of a format is
a word: its sign, then the exponent field, then the fraction.  An exponent field
of zero marks zeros and subnormals, a field of ones infinities and, unless the
fraction is zero, data that are not numbers.  A finite datum is its significand
times a power of two that is at least that of the least subnormal.

An exact decimal number is rounded once, straight to its format, to the nearest
datum and on a tie to the even significand.  The magnitude of the result is
found by counting: the words of a format are in the order of their values, and
within one binade they step by the same unit.  So the word of `count` units is
the number of words below the binade and `count`, and a count that rounds up
into the next binade, or past the last one into infinity, is already right.
-/

namespace NumericFields

namespace Floating

structure Format where
  exponentBits : Nat
  fractionBits : Nat
  deriving DecidableEq, Repr

namespace Format

def single : Format := ⟨8, 23⟩

def double : Format := ⟨11, 52⟩

def magnitudeBits (format : Format) : Nat :=
  format.exponentBits + format.fractionBits

def width (format : Format) : Nat := format.magnitudeBits + 1

def specialField (format : Format) : Nat := (1 <<< format.exponentBits) - 1

def maxExponent (format : Format) : Nat :=
  (1 <<< (format.exponentBits - 1)) - 1

/-- The exponent of the least subnormal, below which no digit is kept. -/
def leastExponent (format : Format) : Int :=
  1 - Int.ofNat format.maxExponent - Int.ofNat format.fractionBits

/-- The magnitude of the infinities: the words below it are finite. -/
def infinity (format : Format) : Nat :=
  format.specialField <<< format.fractionBits

def notANumber (format : Format) : Nat :=
  format.infinity + (1 <<< (format.fractionBits - 1))

end Format

structure Binary (format : Format) where
  word : BitVec format.width
  deriving DecidableEq, Repr

namespace Binary

variable {format : Format}

def ofParts (negative : Bool) (magnitude : Nat) : Binary format :=
  ⟨BitVec.ofNat format.width
    ((if negative then 1 <<< format.magnitudeBits else 0) + magnitude)⟩

def isNegative (datum : Binary format) : Bool := datum.word.msb

def magnitude (datum : Binary format) : Nat :=
  datum.word.toNat % (1 <<< format.magnitudeBits)

def exponentField (datum : Binary format) : Nat :=
  datum.magnitude >>> format.fractionBits

def fraction (datum : Binary format) : Nat :=
  datum.magnitude % (1 <<< format.fractionBits)

def isInfinite (datum : Binary format) : Bool :=
  datum.magnitude == format.infinity

def isNaN (datum : Binary format) : Bool :=
  format.infinity < datum.magnitude

def isFinite (datum : Binary format) : Bool :=
  datum.magnitude < format.infinity

def significand (datum : Binary format) : Nat :=
  if datum.exponentField = 0 then datum.fraction
  else (1 <<< format.fractionBits) + datum.fraction

def unitExponent (datum : Binary format) : Int :=
  format.leastExponent + Int.ofNat (datum.exponentField - 1)

end Binary

/-! ## Correct rounding -/

namespace Rounding

/-- The integer nearest to a quotient, the even one on a tie. -/
def halfEven (numerator denominator : Nat) : Nat :=
  let quotient := numerator / denominator
  let twice := 2 * (numerator % denominator)
  if denominator < twice ∨ (twice = denominator ∧ quotient % 2 = 1) then
    quotient + 1
  else
    quotient

/-- The numerator and the denominator of a quotient measured in units of a power
of two. -/
def inUnits (numerator denominator : Nat) (exponent : Int) : Nat × Nat :=
  (numerator <<< (-exponent).toNat, denominator <<< exponent.toNat)

def leadingExponent (numerator denominator : Nat) : Int :=
  let estimate := Int.ofNat numerator.log2 - Int.ofNat denominator.log2
  let (numerator, denominator) := inUnits numerator denominator estimate
  if numerator < denominator then estimate - 1 else estimate

def unitExponent (format : Format) (numerator denominator : Nat) : Int :=
  max format.leastExponent
    (leadingExponent numerator denominator - Int.ofNat format.fractionBits)

def ofQuotient (format : Format) (numerator denominator : Nat) : Nat :=
  let unit := unitExponent format numerator denominator
  let (numerator, denominator) := inUnits numerator denominator unit
  let below := (unit - format.leastExponent).toNat <<< format.fractionBits
  min format.infinity (below + halfEven numerator denominator)

def quotient (coefficient : Nat) (scale : Int) : Nat × Nat :=
  (coefficient * Nat.pow 10 scale.toNat, Nat.pow 10 (-scale).toNat)

/-- A power of two at most the given power of ten: ten is between eight and
sixteen. -/
def floorExponent (scale : Int) : Int := if 0 ≤ scale then 3 * scale else 4 * scale

def ceilExponent (scale : Int) : Int := if 0 ≤ scale then 4 * scale else 3 * scale

/-- The magnitude nearest to a coefficient times a power of ten.  Scales far
beyond the format are decided without writing the power out. -/
def ofDecimal (format : Format) (coefficient : Nat) (scale : Int) : Nat :=
  let leading := Int.ofNat coefficient.log2
  if coefficient = 0 then
    0
  else if Int.ofNat format.maxExponent < leading + floorExponent scale then
    format.infinity
  else if leading + 1 + ceilExponent scale < format.leastExponent then
    0
  else
    let (numerator, denominator) := quotient coefficient scale
    ofQuotient format numerator denominator

end Rounding

namespace Binary

variable {format : Format}

def ofNumeral (negative : Bool) (numeral : Numeral) : Binary format :=
  ofParts negative (Rounding.ofDecimal format numeral.coefficient numeral.scale)

def ofWord (negative : Bool) : Word → Binary format
  | .infinity | .inf => ofParts negative format.infinity
  | .nan => ofParts negative format.notANumber

def ofLiteral (literal : Literal) : Binary format :=
  match literal.body with
  | .word name => ofWord literal.isNegative name
  | .numeral parts => ofNumeral literal.isNegative parts

end Binary

end Floating

end NumericFields
