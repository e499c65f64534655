import Mathlib.Tactic
import NumericFields.Cursor
import NumericFields.Integer.Parse

/-!
# A cursor follows the bytes in sight

A buffer lies in memory, so it is shorter than the words can count.  A window
whose end is out of reach then stays out of reach: its end does not move while
the offset can still grow, and once the offset is the greatest word it lies
behind every buffer.

`Step.applyView` knows no offsets, lengths or machine words.  Each step of a
window does to its view what the same step does there, so a whole run gives the
same answers.  What is asked of a window may be any function of a view: an
outcome is asked for together with its records.
-/

namespace NumericFields

/-! ## What a window shows after it has moved -/

/-- The bytes lie in memory: their number is a signed word that is not negative. -/
def Addressable (buffer : Bytes) : Prop := buffer.length < 2 ^ 63

instance (buffer : Bytes) : Decidable (Addressable buffer) :=
  inferInstanceAs (Decidable (_ < _))

namespace Window

theorem length_lt_size {buffer : Bytes} (addressable : Addressable buffer) :
    buffer.length < UInt64.size - 1 :=
  lt_of_lt_of_le addressable (by decide)

theorem view_select {buffer : Bytes} (addressable : Addressable buffer)
    (offset length : UInt64) :
    (Window.mk buffer offset length).view =
      if offset.toNat + length.toNat ≤ buffer.length then
        some ((buffer.drop offset.toNat).take length.toNat)
      else
        none := by
  have short := length_lt_size addressable
  rw [view_eq]
  refine if_congr ?_ rfl rfl
  simp only
  omega

theorem view_whole {buffer : Bytes} (addressable : Addressable buffer) :
    (whole buffer).view = some buffer := by
  have short := length_lt_size addressable
  have length : (UInt64.ofNat buffer.length).toNat = buffer.length :=
    UInt64.toNat_ofNat_of_lt' (by omega)
  simp [whole, view_select addressable, length]

theorem view_middle {before text after : Bytes}
    (addressable : Addressable (before ++ (text ++ after))) :
    (Window.mk (before ++ (text ++ after)) (.ofNat before.length)
      (.ofNat text.length)).view = some text := by
  have short := length_lt_size addressable
  rw [List.length_append, List.length_append] at short
  have offset : (UInt64.ofNat before.length).toNat = before.length :=
    UInt64.toNat_ofNat_of_lt' (by omega)
  have length : (UInt64.ofNat text.length).toNat = text.length :=
    UInt64.toNat_ofNat_of_lt' (by omega)
  rw [view_select addressable, offset, length, if_pos (by simp), List.drop_left,
    List.take_left]

theorem view_suffix {before back : Bytes} (addressable : Addressable (before ++ back)) :
    (Window.mk (before ++ back) (.ofNat before.length) (.ofNat back.length)).view =
      some back := by
  rw [← List.append_nil back] at addressable
  have shown := view_middle addressable
  rwa [List.append_nil] at shown

theorem addressable_advance {window : Window} (addressable : Addressable window.buffer)
    (count : UInt64) : Addressable (window.advance count).buffer :=
  addressable

theorem view_advance_of_view {window : Window} {bytes : Bytes}
    (view : window.view = some bytes) (count : UInt64) :
    (window.advance count).view = some (bytes.drop (min count.toNat bytes.length)) := by
  have size : UInt64.size = 18446744073709551616 := rfl
  have offset := toNat_offset_advance window count
  have length := toNat_length_advance window count
  rw [view_eq] at view
  split at view
  · next fits =>
      obtain rfl := Option.some.inj view
      have moved : (window.advance count).offset.toNat =
          window.offset.toNat + min count.toNat window.length.toNat := by
        omega
      rw [view_eq, buffer_advance, if_pos (by omega), moved, length, List.drop_take,
        List.drop_drop, List.length_take, List.length_drop,
        Nat.min_eq_left (a := window.length.toNat) (by omega)]
  · contradiction

theorem view_advance {window : Window} (addressable : Addressable window.buffer)
    (count : UInt64) :
    (window.advance count).view =
      window.view.map fun bytes => bytes.drop (min count.toNat bytes.length) := by
  cases view : window.view with
  | some bytes => exact view_advance_of_view view count
  | none =>
      have short := length_lt_size addressable
      have offset := toNat_offset_advance window count
      have length := toNat_length_advance window count
      rw [view_eq, ite_eq_right_iff] at view
      have outside : ¬window.offset.toNat + window.length.toNat ≤ window.buffer.length :=
        fun inside => by simpa using view ⟨by omega, inside⟩
      -- the end stays where it was, or the offset is the greatest word
      rw [view_eq, buffer_advance, if_neg (by omega), Option.map_none]

theorem isSome_view_advance {window : Window} (addressable : Addressable window.buffer)
    (count : UInt64) :
    (window.advance count).view.isSome = window.view.isSome := by
  rw [view_advance addressable, Option.isSome_map]

end Window

/-! ## Runs of steps -/

namespace Step

def observe {α : Type u} (after : Option α × Window) : Option α × View :=
  (after.1, after.2.view)

variable {α : Type u}

theorem observe_apply {window : Window} (addressable : Addressable window.buffer)
    (step : Step α) :
    observe (step.apply window) = step.applyView window.buffer window.view := by
  cases step with
  | select offset length =>
      simp only [observe, apply, applyView, Window.view_select addressable]
      split <;> rfl
  | restart => simp [observe, apply, applyView, Window.view_whole addressable]
  | advance count => simp [observe, apply, applyView, Window.view_advance addressable]
  | query answer => rfl

theorem map_observe_run {window : Window} (addressable : Addressable window.buffer)
    (steps : List (Step α)) :
    (run window steps).map observe = runView window.buffer window.view steps := by
  induction steps generalizing window with
  | nil => rfl
  | cons step steps ih =>
      have moved : Addressable (step.apply window).2.buffer := by
        rwa [buffer_apply]
      have same := observe_apply addressable step
      simp only [run, runView, List.map_cons, ← same, ih moved, buffer_apply]
      rfl

/-- Whatever is done with windows of a buffer in memory, every answer is the one
that the bytes in sight give, and these are in sight after every step.  Moving
forward neither brings a null window into sight nor loses one. -/
theorem runs_follow_bytes_in_sight (buffer : Bytes) (addressable : Addressable buffer)
    (steps : List (Step α)) :
    (run (.whole buffer) steps).map observe = runView buffer (some buffer) steps ∧
      ∀ offset length count,
        ((Window.mk buffer offset length).advance count).view.isSome =
          (Window.mk buffer offset length).view.isSome := by
  constructor
  · have same : (run (.whole buffer) steps).map observe = _ :=
      map_observe_run addressable steps
    rwa [Window.view_whole addressable] at same
  · intro offset length count
    exact Window.isSome_view_advance addressable count

theorem run_past_greatest_word :
    let ask : Step (Option UInt8 × List Record) :=
      .query fun view =>
        ((Integer.parseUInt8 view).result.toOption, (Integer.parseUInt8 view).log)
    Addressable [0x37, 0x38] ∧
      (run (.whole [0x37, 0x38])
          [.advance 1, ask, .select 0xffffffffffffffff 2, .advance 2, ask]).map observe =
        [(none, some [0x38]), (some (some 8, []), some [0x38]), (none, none),
          (none, none), (some (none, [⟨.invalidInput, none⟩]), none)] := by
  refine ⟨by decide, ?_⟩
  rw [(runs_follow_bytes_in_sight [0x37, 0x38] (by decide) _).1]
  rfl

end Step

end NumericFields
