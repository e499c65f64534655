import NumericFields.Outcome

/-!
# Windows into a message

A window is an offset and a length over a buffer that it does not copy.  Both
are machine words, and neither is checked before the bytes are asked for: a
window whose end does not exist views as null.  `advance` moves the window and
never looks at the buffer.

A cursor holds one window of a message and is moved and asked in turn.  What it
is asked depends on the viewed bytes alone, so a query is any function of a
view.  `Step.apply` moves real windows; `Step.applyView` describes the same
steps on nothing but the bytes in sight.
-/

namespace NumericFields

namespace Word

def checkedAdd (first second : UInt64) : Option UInt64 :=
  if first.toNat + second.toNat < UInt64.size then some (first + second) else none

def saturatingAdd (first second : UInt64) : UInt64 :=
  (checkedAdd first second).getD (.ofNat (UInt64.size - 1))

theorem checkedAdd_eq_some {first second : UInt64}
    (h : first.toNat + second.toNat < UInt64.size) :
    checkedAdd first second = some (first + second) := by
  rw [checkedAdd, if_pos h]

theorem checkedAdd_eq_none {first second : UInt64}
    (h : UInt64.size ≤ first.toNat + second.toNat) :
    checkedAdd first second = none := by
  rw [checkedAdd, if_neg (by omega)]

theorem toNat_saturatingAdd (first second : UInt64) :
    (saturatingAdd first second).toNat =
      min (first.toNat + second.toNat) (UInt64.size - 1) := by
  have size : UInt64.size = 18446744073709551616 := rfl
  by_cases h : first.toNat + second.toNat < UInt64.size
  · rw [saturatingAdd, checkedAdd_eq_some h, Option.getD_some, UInt64.toNat_add]
    omega
  · rw [saturatingAdd, checkedAdd_eq_none (by omega), Option.getD_none,
      UInt64.toNat_ofNat']
    omega

end Word

structure Window where
  buffer : Bytes
  offset : UInt64
  length : UInt64
  deriving DecidableEq, Repr

namespace Window

def whole (buffer : Bytes) : Window := ⟨buffer, 0, UInt64.ofNat buffer.length⟩

def isEmpty (window : Window) : Bool := window.length == 0

/-- The bytes from the offset to the end of the window, null if that end is no
machine word or lies behind the buffer. -/
def view (window : Window) : View :=
  match Word.checkedAdd window.offset window.length with
  | some stop =>
      if stop.toNat ≤ window.buffer.length then
        some ((window.buffer.drop window.offset.toNat).take window.length.toNat)
      else
        none
  | none => none

def advance (window : Window) (count : UInt64) : Window :=
  let count := min count window.length
  ⟨window.buffer, Word.saturatingAdd window.offset count, window.length - count⟩

@[simp] theorem buffer_advance (window : Window) (count : UInt64) :
    (window.advance count).buffer = window.buffer := rfl

theorem view_eq (window : Window) :
    window.view =
      if window.offset.toNat + window.length.toNat < UInt64.size ∧
          window.offset.toNat + window.length.toNat ≤ window.buffer.length then
        some ((window.buffer.drop window.offset.toNat).take window.length.toNat)
      else
        none := by
  by_cases fits : window.offset.toNat + window.length.toNat < UInt64.size
  · rw [view, Word.checkedAdd_eq_some fits]
    have stop : (window.offset + window.length).toNat =
        window.offset.toNat + window.length.toNat := by
      have size : UInt64.size = 18446744073709551616 := rfl
      rw [UInt64.toNat_add]
      omega
    simp only [stop, fits, true_and]
  · rw [view, Word.checkedAdd_eq_none (by omega), if_neg (by omega)]

theorem toNat_min (first second : UInt64) :
    (min first second).toNat = min first.toNat second.toNat := by
  show (if first ≤ second then first else second).toNat = _
  split
  · next h => rw [UInt64.le_iff_toNat_le] at h; omega
  · next h => rw [UInt64.le_iff_toNat_le] at h; omega

theorem toNat_length_advance (window : Window) (count : UInt64) :
    (window.advance count).length.toNat =
      window.length.toNat - min count.toNat window.length.toNat := by
  have smaller := toNat_min count window.length
  rw [advance, UInt64.toNat_sub_of_le]
  · rw [smaller]
  · rw [UInt64.le_iff_toNat_le, smaller]
    omega

theorem toNat_offset_advance (window : Window) (count : UInt64) :
    (window.advance count).offset.toNat =
      min (window.offset.toNat + min count.toNat window.length.toNat)
        (UInt64.size - 1) := by
  rw [advance, Word.toNat_saturatingAdd, toNat_min]

end Window

/-! ## Cursors -/

inductive Step (α : Type u) where
  /-- Takes up the given window of the buffer, unchecked. -/
  | select (offset length : UInt64)
  /-- Takes up the whole buffer. -/
  | restart
  | advance (count : UInt64)
  | query (answer : View → α)

namespace Step

variable {α : Type u}

def apply (window : Window) : Step α → Option α × Window
  | .select offset length => (none, ⟨window.buffer, offset, length⟩)
  | .restart => (none, .whole window.buffer)
  | .advance count => (none, window.advance count)
  | .query answer => (some (answer window.view), window)

/-- The same step where only the viewed bytes are kept. -/
def applyView (buffer : Bytes) (view : View) : Step α → Option α × View
  | .select offset length =>
      if offset.toNat + length.toNat ≤ buffer.length then
        (none, some ((buffer.drop offset.toNat).take length.toNat))
      else
        (none, none)
  | .restart => (none, some buffer)
  | .advance count =>
      (none, view.map fun bytes => bytes.drop (min count.toNat bytes.length))
  | .query answer => (some (answer view), view)

def run (window : Window) : List (Step α) → List (Option α × Window)
  | [] => []
  | step :: steps =>
      let (answer, window) := step.apply window
      (answer, window) :: run window steps

def runView (buffer : Bytes) (view : View) :
    List (Step α) → List (Option α × View)
  | [] => []
  | step :: steps =>
      let (answer, view) := step.applyView buffer view
      (answer, view) :: runView buffer view steps

@[simp] theorem buffer_apply (window : Window) (step : Step α) :
    (step.apply window).2.buffer = window.buffer := by
  cases step <;> rfl

end Step

end NumericFields
