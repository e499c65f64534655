import NumericFields.Text.Decimal

/-!
# Floating-point literals

A literal is an optional sign before a word or a numeral.  The words are
`infinity`, `inf` and `nan`, in any mixture of cases.  A numeral is a whole part
and an optional fraction after a point, with a digit in at least one of them,
and an optional exponent of ten.  `Literal.Spelled` says which texts write a
literal; there is no other spelling, in particular none in base sixteen.
`Literal.read?` takes a text that is a literal from its first byte to its last
and returns the literal; any other text is refused.
-/

namespace NumericFields

namespace Floating

inductive Word where
  | infinity
  | inf
  | nan
  deriving DecidableEq, Repr

namespace Word

def all : List Word := [.infinity, .inf, .nan]

def text : Word → Bytes
  | .infinity => [0x69, 0x6e, 0x66, 0x69, 0x6e, 0x69, 0x74, 0x79]
  | .inf => [0x69, 0x6e, 0x66]
  | .nan => [0x6e, 0x61, 0x6e]

end Word

structure Exponent where
  capital : Bool
  sign : Option Sign
  digits : List Digit
  digits_ne_nil : digits ≠ []
  deriving DecidableEq, Repr

namespace Exponent

def marker (capital : Bool) : UInt8 := if capital then 0x45 else 0x65

def capitalOfMarker? (byte : UInt8) : Option Bool :=
  if byte = marker true then some true
  else if byte = marker false then some false
  else none

def text (exponent : Exponent) : Bytes :=
  marker exponent.capital ::
    (Sign.text exponent.sign ++ Decimal.text exponent.digits)

def value (exponent : Exponent) : Int :=
  if exponent.sign = some .minus then
    -Int.ofNat (Decimal.value exponent.digits)
  else
    Int.ofNat (Decimal.value exponent.digits)

end Exponent

def point : UInt8 := 0x2e

structure Numeral where
  whole : List Digit
  fraction : Option (List Digit)
  exponent : Option Exponent
  has_digit : ¬(whole = [] ∧ fraction.getD [] = [])
  deriving DecidableEq, Repr

namespace Numeral

def text (numeral : Numeral) : Bytes :=
  Decimal.text numeral.whole ++
    (numeral.fraction.elim [] fun digits => point :: Decimal.text digits) ++
    numeral.exponent.elim [] Exponent.text

/-- A numeral is its coefficient times ten to the power of its scale. -/
def coefficient (numeral : Numeral) : Nat :=
  Decimal.value (numeral.whole ++ numeral.fraction.getD [])

def scale (numeral : Numeral) : Int :=
  numeral.exponent.elim 0 Exponent.value -
    Int.ofNat (numeral.fraction.getD []).length

end Numeral

inductive Body where
  | word (name : Word)
  | numeral (parts : Numeral)
  deriving DecidableEq, Repr

structure Literal where
  sign : Option Sign
  body : Body
  deriving DecidableEq, Repr

/-- The text is made up of the given small letters, or of their capitals, which stand
0x20 in front of them. -/
inductive EitherCase : Bytes → Bytes → Prop
  | nil : EitherCase [] []
  | small (letter : UInt8) {letters text : Bytes} (rest : EitherCase letters text) :
      EitherCase (letter :: letters) (letter :: text)
  | capital (letter : UInt8) {letters text : Bytes} (rest : EitherCase letters text) :
      EitherCase (letter :: letters) ((letter - 0x20) :: text)

def Body.Spelled : Body → Bytes → Prop
  | .word name, text => EitherCase name.text text
  | .numeral parts, text => text = parts.text

namespace Literal

def Spelled (literal : Literal) (text : Bytes) : Prop :=
  ∃ unsigned, literal.body.Spelled unsigned ∧
    text = Sign.text literal.sign ++ unsigned

def isNegative (literal : Literal) : Bool := Sign.isNegative literal.sign

def isFinite (literal : Literal) : Bool :=
  match literal.body with
  | .word _ => false
  | .numeral _ => true

end Literal

/-! ## Reading a literal -/

def Word.read? (text : Bytes) : Option Word :=
  Word.all.find? fun word => text.map lowerCase == word.text

def Exponent.read? : Bytes → Option Exponent
  | [] => none
  | first :: rest =>
      match capitalOfMarker? first with
      | none => none
      | some capital =>
          let (sign, rest) := Sign.take rest
          match Decimal.read? rest with
          | none => none
          | some digits =>
              if h : digits ≠ [] then some ⟨capital, sign, digits, h⟩ else none

namespace Numeral

def takeFraction : Bytes → Option (List Digit) × Bytes
  | [] => (none, [])
  | first :: rest =>
      if first = point then
        let (digits, rest) := Decimal.takeDigits rest
        (some digits, rest)
      else
        (none, first :: rest)

def readExponent? : Bytes → Option (Option Exponent)
  | [] => some none
  | first :: rest => (Exponent.read? (first :: rest)).map some

def read? (text : Bytes) : Option Numeral :=
  let (whole, rest) := Decimal.takeDigits text
  let (fraction, rest) := takeFraction rest
  match readExponent? rest with
  | none => none
  | some exponent =>
      if h : ¬(whole = [] ∧ fraction.getD [] = []) then
        some ⟨whole, fraction, exponent, h⟩
      else
        none

end Numeral

def Body.read? (text : Bytes) : Option Body :=
  match Word.read? text with
  | some name => some (.word name)
  | none => (Numeral.read? text).map .numeral

def Literal.read? (text : Bytes) : Option Literal :=
  let (sign, unsigned) := Sign.take text
  (Body.read? unsigned).map fun body => ⟨sign, body⟩

end Floating

end NumericFields
