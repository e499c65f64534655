import NumericFields.Text.Decimal
import NumericFields.Cursor
import NumericFields.Wire.Field

/-!
# Containers of text

Callers hold their bytes in different containers.  Whatever the container, a
conversion sees only `Container.view`.  An absent container is a null view, and
neither sharing a container nor wrapping it as present changes what it shows.
A fixed buffer holds text up to its first zero byte, or all the way when there
is none.  Text at an address has no buffer to end it: its length is the number
of bytes before the zero, counted from the start.
-/

namespace NumericFields

/-! ## Text that ends at a zero byte -/

namespace Terminated

def ofBuffer (buffer : Bytes) : Bytes :=
  match buffer.findIdx? (· == 0) with
  | some stop => buffer.take stop
  | none => buffer

/-- The number of bytes before the first zero of memory that holds one. -/
def measure : Bytes → Nat
  | [] => 0
  | byte :: rest => if byte == 0 then 0 else measure rest + 1

def ofMemory (memory : Bytes) : Bytes := memory.take (measure memory)

def close (text : Bytes) : Bytes := text ++ [0]

end Terminated

/-! ## Containers -/

inductive Container where
  /-- A run of bytes of known length. -/
  | block (bytes : Bytes)
  | string (text : String)
  /-- A text kept with its closing zero byte, which is not part of it. -/
  | closed (stored : Bytes)
  /-- A buffer that holds text up to its first zero byte, if it has one. -/
  | buffer (bytes : Bytes)
  /-- An address at which text lies up to a zero byte. -/
  | address (memory : Bytes)
  | window (frame : Window)
  | field (encoded : Wire.Field)
  | absent
  | present (inner : Container)
  | shared (inner : Container)
  deriving Repr

namespace Container

def view : Container → View
  | .block bytes => some bytes
  | .string text => some text.toUTF8.toList
  | .closed stored => some stored.dropLast
  | .buffer bytes => some (Terminated.ofBuffer bytes)
  | .address memory => some (Terminated.ofMemory memory)
  | .window frame => frame.view
  | .field encoded => encoded.view
  | .absent => none
  | .present inner | .shared inner => inner.view

end Container

end NumericFields
