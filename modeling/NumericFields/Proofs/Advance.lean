import NumericFields.Proofs.Cursor

/-!
# Moves add up

A window that is advanced again and again has moved by the sum of the counts, whatever
their order.  The sum is taken up to the greatest word, which is beyond every window, and
the offset is held there alike whether it gets there in one move or in many.  While the
end of the window is a word, moves leave it where it is.
-/

namespace NumericFields

namespace Word

def saturate (number : Nat) : UInt64 := .ofNat (min number (2 ^ 64 - 1))

@[simp] theorem toNat_saturate (number : Nat) :
    (saturate number).toNat = min number (2 ^ 64 - 1) := by
  rw [saturate, UInt64.toNat_ofNat']
  omega

theorem saturate_add_saturate (first second : Nat) :
    saturate (first + (saturate second).toNat) = saturate (first + second) := by
  apply UInt64.toNat_inj.mp
  simp only [toNat_saturate]
  omega

end Word

namespace Window

theorem ext_toNat {first second : Window} (buffer : first.buffer = second.buffer)
    (offset : first.offset.toNat = second.offset.toNat)
    (length : first.length.toNat = second.length.toNat) : first = second := by
  rcases first with ⟨_, _, _⟩
  rcases second with ⟨_, _, _⟩
  rw [Window.mk.injEq]
  exact ⟨buffer, UInt64.toNat_inj.mp offset, UInt64.toNat_inj.mp length⟩

/-! ## One move -/

theorem toNat_length_advance_add (window : Window) (count : UInt64) :
    (window.advance count).length.toNat + min count.toNat window.length.toNat =
      window.length.toNat := by
  rw [toNat_length_advance]
  omega

theorem advance_zero (window : Window) : window.advance 0 = window := by
  have size : UInt64.size = 2 ^ 64 := rfl
  have bound := window.offset.toNat_lt
  refine ext_toNat rfl ?_ ?_
  · rw [toNat_offset_advance, UInt64.toNat_zero]
    omega
  · rw [toNat_length_advance, UInt64.toNat_zero]
    omega

theorem toNat_end_advance {window : Window}
    (inside : window.offset.toNat + window.length.toNat ≤ 2 ^ 64 - 1) (count : UInt64) :
    (window.advance count).offset.toNat + (window.advance count).length.toNat =
      window.offset.toNat + window.length.toNat := by
  have size : UInt64.size = 2 ^ 64 := rfl
  have length := window.toNat_length_advance_add count
  -- the offset gains what the length loses, as it is not held back
  rw [toNat_offset_advance]
  omega

/-! ## Many moves -/

theorem advance_advance (window : Window) (first second : UInt64) :
    (window.advance first).advance second =
      window.advance (Word.saturate (first.toNat + second.toNat)) := by
  have size : UInt64.size = 2 ^ 64 := rfl
  have bound := window.length.toNat_lt
  refine ext_toNat rfl ?_ ?_
  · -- an offset that the first move leaves held back is held back again
    simp only [toNat_offset_advance, toNat_length_advance, Word.toNat_saturate]
    omega
  · simp only [toNat_length_advance, Word.toNat_saturate]
    omega

theorem foldl_advance (window : Window) (counts : List UInt64) :
    counts.foldl advance window =
      window.advance (Word.saturate (counts.map UInt64.toNat).sum) := by
  induction counts generalizing window with
  | nil => exact window.advance_zero.symm
  | cons count counts ih =>
      rw [List.foldl_cons, ih, advance_advance, Word.saturate_add_saturate, List.map_cons,
        List.sum_cons]

/-- Two moves are one move by the sum of their counts, and so are any number of moves in
any order; a move by nothing changes nothing.  A move takes off the length what the
count and the length have in common, and keeps the end of a window whose end is a word. -/
theorem advances_add_up (window : Window) :
    (∀ first second, (window.advance first).advance second =
      window.advance (Word.saturate (first.toNat + second.toNat))) ∧
    (∀ counts order : List UInt64, order.Perm counts →
      order.foldl advance window =
        window.advance (Word.saturate (counts.map UInt64.toNat).sum)) ∧
    window.advance 0 = window ∧
    (∀ count,
      (window.advance count).length.toNat + min count.toNat window.length.toNat =
        window.length.toNat) ∧
    (window.offset.toNat + window.length.toNat ≤ 2 ^ 64 - 1 → ∀ count,
      (window.advance count).offset.toNat + (window.advance count).length.toNat =
        window.offset.toNat + window.length.toNat) := by
  refine ⟨window.advance_advance, fun counts order same => ?_, window.advance_zero,
    window.toNat_length_advance_add, toNat_end_advance⟩
  rw [foldl_advance, (same.map UInt64.toNat).sum_eq]

theorem advances_past_greatest_word :
    let beyond : Window := ⟨[0x37], 0xfffffffffffffffe, 5⟩
    let behind : Window := ⟨[0x37], 4, 5⟩
    List.Perm [3, 0xffffffffffffffff, 0] [0xffffffffffffffff, 0, (3 : UInt64)] ∧
      [3, 0xffffffffffffffff, 0].foldl advance beyond =
        beyond.advance 0xffffffffffffffff ∧
      behind.offset.toNat + behind.length.toNat ≤ 2 ^ 64 - 1 ∧
      (behind.advance 9).offset.toNat + (behind.advance 9).length.toNat = 9 := by
  have order :
      List.Perm [3, 0xffffffffffffffff, 0] [0xffffffffffffffff, 0, (3 : UInt64)] :=
    by decide
  have total : Word.saturate (([0xffffffffffffffff, 0, 3] : List UInt64).map
      UInt64.toNat).sum = 0xffffffffffffffff := by
    decide
  have merged := (advances_add_up ⟨[0x37], 0xfffffffffffffffe, 5⟩).2.1 _ _ order
  rw [total] at merged
  have inside : (4 : UInt64).toNat + (5 : UInt64).toNat ≤ 2 ^ 64 - 1 := by decide
  have kept := (advances_add_up ⟨[0x37], 4, 5⟩).2.2.2.2 inside 9
  exact ⟨order, merged, inside, kept⟩

end Window

end NumericFields
