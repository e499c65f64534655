import NumericFields.Outcome
import NumericFields.Integer.Kind

/-!
# Gathering digits

Magnitudes are gathered in a register of 128 bits, whatever the target.  Every
step says whether its result still fits; a result that does not is refused, not
wrapped.

Digits are taken least significant first, each weighed by a running power of
ten.  The weight is bounded on its own: zeros on the left carry the weight out
of range while the value is still small, and are refused for it.  A digit's
weight has to exist only once the digit is there, so the widest values of a
kind are still read.
-/

namespace NumericFields

/-! ## The working register -/

namespace Integer.Register

def unsignedEnd : Nat := 1 <<< 128

def signedEnd : Int := Int.ofNat (1 <<< 127)

def unsigned? (number : Nat) : Option Nat :=
  if number < unsignedEnd then some number else none

def signed? (number : Int) : Option Int :=
  if -signedEnd ≤ number ∧ number < signedEnd then some number else none

def mul? (first second : Nat) : Option Nat := unsigned? (first * second)

def add? (first second : Nat) : Option Nat := unsigned? (first + second)

def neg? (number : Int) : Option Int := signed? (-number)

theorem unsigned?_eq_some {number : Nat} (h : number < unsignedEnd) :
    unsigned? number = some number := by
  rw [unsigned?, if_pos h]

theorem signed?_eq_some {number : Int} (hmin : -signedEnd ≤ number)
    (hmax : number < signedEnd) : signed? number = some number := by
  rw [signed?, if_pos ⟨hmin, hmax⟩]

end Integer.Register

/-! ## The accumulator -/

namespace Integer

/-- The number of digits taken, the weight of the last of them, and the value
of all of them. -/
structure Accumulator where
  count : Nat
  weight : Nat
  value : Nat
  deriving DecidableEq, Repr

namespace Accumulator

def start : Accumulator := ⟨0, 1, 0⟩

/-- A number that a step of the register produced within `limit`. -/
def bounded (limit : Nat) (number : Option Nat) : Except Failure Nat :=
  match number with
  | some number => if number ≤ limit then .ok number else .error .overflow
  | none => .error .overflow

def nextWeight (kind : Kind) (sum : Accumulator) : Except Failure Nat :=
  if sum.count = 0 then
    .ok sum.weight
  else
    bounded kind.positiveMax (Register.mul? sum.weight 10)

def nextValue (kind : Kind) (sum : Accumulator) (digit : Digit) (weight : Nat) :
    Except Failure Nat :=
  bounded kind.magnitudeLimit
    ((Register.mul? digit.val weight).bind (Register.add? sum.value))

def push (kind : Kind) (sum : Accumulator) (byte : UInt8) :
    Except Failure Accumulator :=
  match Digit.ofByte? byte with
  | none => .error (.nonNumeric byte)
  | some digit =>
      match sum.nextWeight kind with
      | .error failure => .error failure
      | .ok weight =>
          match sum.nextValue kind digit weight with
          | .error failure => .error failure
          | .ok value => .ok ⟨sum.count + 1, weight, value⟩

/-- Takes the bytes of a text from its end to its start. -/
def gather (kind : Kind) (text : Bytes) : Except Failure Accumulator :=
  text.reverse.foldlM (push kind) start

@[simp] theorem gather_nil (kind : Kind) : gather kind [] = .ok start := rfl

theorem gather_cons (kind : Kind) (byte : UInt8) (text : Bytes) :
    gather kind (byte :: text) =
      (gather kind text).bind fun sum => push kind sum byte := by
  simp only [gather, List.reverse_cons, List.foldlM_append, List.foldlM_cons,
    List.foldlM_nil]
  cases text.reverse.foldlM (push kind) start with
  | error failure => rfl
  | ok sum =>
      simp only [bind, Except.bind, pure, Except.pure]
      cases push kind sum byte <;> rfl

end Accumulator

end Integer

end NumericFields
