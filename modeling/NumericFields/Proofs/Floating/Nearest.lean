import NumericFields.Proofs.Floating.Magnitude

/-!
# The nearest magnitude

A number between two magnitudes is rounded to the nearer one, and from halfway
to the even one.  The magnitude that this rule picks is nearest among all the
finite ones, and reaches infinity exactly from the threshold on.
-/

namespace NumericFields.Floating

/-- The index below the limit whose value is nearest to the number, and even
unless it is strictly nearest. -/
structure NearestEven (value : ℕ → ℚ) (limit : ℕ) (number : ℚ) (index : ℕ) :
    Prop where
  inside : index < limit
  nearest : ∀ other < limit, |value index - number| ≤ |value other - number|
  even : ∀ other < limit, other ≠ index →
    |value other - number| = |value index - number| → Even index

/-- Whether a number between the values of an index and of the next one goes to
the next one. -/
def RoundsUp (value : ℕ → ℚ) (number : ℚ) (below : ℕ) : Prop :=
  value below + value (below + 1) < 2 * number ∨
    (value below + value (below + 1) = 2 * number ∧ below % 2 = 1)

def Picked (value : ℕ → ℚ) (number : ℚ) (below index : ℕ) : Prop :=
  (RoundsUp value number below ∧ index = below + 1) ∨
    (¬RoundsUp value number below ∧ index = below)

theorem Picked.bounds {value : ℕ → ℚ} {number : ℚ} {below index : ℕ}
    (picked : Picked value number below index) :
    below ≤ index ∧ index ≤ below + 1 := by
  rcases picked with ⟨-, rfl⟩ | ⟨-, rfl⟩ <;> omega

namespace NearestEven

variable {value : ℕ → ℚ} {limit below : ℕ} {number : ℚ}

theorem of_roundsUp (mono : StrictMono value)
    (high : number < value (below + 1)) (inside : below + 1 < limit)
    (up : RoundsUp value number below) :
    NearestEven value limit number (below + 1) := by
  have distance : |value (below + 1) - number| = value (below + 1) - number :=
    abs_of_pos (by linarith)
  have half : value below + value (below + 1) ≤ 2 * number := by
    rcases up with closer | ⟨halfway, -⟩ <;> linarith
  refine ⟨inside, fun other _ => ?_, fun other _ different same => ?_⟩
  · rw [distance]
    rcases Nat.lt_or_ge below other with above | under
    · have := mono.monotone (Nat.succ_le_of_lt above)
      exact le_abs.mpr (.inl (by linarith))
    · have := mono.monotone under
      exact le_abs.mpr (.inr (by linarith))
  · rw [distance] at same
    rcases Nat.lt_or_ge below other with above | under
    · have := mono (lt_of_le_of_ne (Nat.succ_le_of_lt above) different.symm)
      rw [abs_of_pos (by linarith)] at same
      linarith
    · have := mono.monotone under
      rw [abs_of_nonpos (by linarith)] at same
      rcases up with closer | ⟨-, odd⟩
      · linarith
      · exact Nat.even_iff.mpr (by omega)

theorem of_not_roundsUp (mono : StrictMono value) (low : value below ≤ number)
    (high : number < value (below + 1)) (inside : below < limit)
    (down : ¬RoundsUp value number below) :
    NearestEven value limit number below := by
  have distance : |value below - number| = number - value below := by
    rw [abs_of_nonpos (by linarith), neg_sub]
  rw [RoundsUp, not_or, not_lt, not_and] at down
  obtain ⟨half, halfway⟩ := down
  refine ⟨inside, fun other _ => ?_, fun other _ different same => ?_⟩
  · rw [distance]
    rcases Nat.lt_or_ge below other with above | under
    · have := mono.monotone (Nat.succ_le_of_lt above)
      exact le_abs.mpr (.inl (by linarith))
    · have := mono.monotone under
      exact le_abs.mpr (.inr (by linarith))
  · rw [distance] at same
    rcases Nat.lt_or_ge below other with above | under
    · have := mono.monotone (Nat.succ_le_of_lt above)
      rw [abs_of_pos (by linarith)] at same
      have := halfway (by linarith)
      exact Nat.even_iff.mpr (by omega)
    · have := mono (lt_of_le_of_ne under different)
      rw [abs_of_nonpos (by linarith)] at same
      linarith

theorem unique (mono : StrictMono value) {first second : ℕ}
    (hfirst : NearestEven value limit number first)
    (hsecond : NearestEven value limit number second) : first = second := by
  by_contra different
  wlog less : first < second generalizing first second with swapped
  · exact swapped hsecond hfirst (Ne.symm different) (by omega)
  have same : |value second - number| = |value first - number| :=
    le_antisymm (hsecond.nearest _ hfirst.inside) (hfirst.nearest _ hsecond.inside)
  have evenFirst := hfirst.even second hsecond.inside (Ne.symm different) same
  have evenSecond := hsecond.even first hfirst.inside different same.symm
  -- Of two even indices apart, an index between them would be nearer.
  have between : first + 1 < second := by
    rw [Nat.even_iff] at evenFirst evenSecond
    omega
  have below := mono (Nat.lt_succ_self first)
  have above := mono between
  have nearer := hfirst.nearest (first + 1) (between.trans hsecond.inside)
  rcases abs_cases (value second - number) with h | h <;>
    rcases abs_cases (value first - number) with h' | h' <;>
      rcases abs_cases (value (first + 1) - number) with h'' | h'' <;> linarith

end NearestEven

/-! ## Rounding with an end -/

variable {format : Format} {number : ℚ} {below index : ℕ}

/-- The magnitude that a number is rounded to: the nearest finite one, or infinity
from the threshold on. -/
structure Rounded (format : Format) (number : ℚ) (magnitude : ℕ) : Prop where
  nearest : number < format.threshold →
    NearestEven format.value format.infinity number magnitude
  infinite : format.threshold ≤ number → magnitude = format.infinity

namespace Rounded

theorem le_infinity (rounded : Rounded format number index) :
    index ≤ format.infinity := by
  rcases lt_or_ge number format.threshold with near | far
  · exact (rounded.nearest near).inside.le
  · exact (rounded.infinite far).le

theorem eq_infinity_iff (rounded : Rounded format number index) :
    index = format.infinity ↔ format.threshold ≤ number := by
  refine ⟨fun same => ?_, rounded.infinite⟩
  by_contra near
  exact (rounded.nearest (not_le.mp near)).inside.ne same

theorem of_below_greatest (proper : format.Proper)
    (low : format.value below ≤ number) (high : number < format.value (below + 1))
    (inside : below + 1 < format.infinity)
    (picked : Picked format.value number below index) :
    Rounded format number index := by
  have mono := format.value_strictMono
  refine ⟨fun _ => ?_, fun far => ?_⟩
  · rcases picked with ⟨up, rfl⟩ | ⟨down, rfl⟩
    · exact .of_roundsUp mono high inside up
    · exact .of_not_roundsUp mono low high (by omega) down
  · have half := proper.two_mul_threshold
    have greatest : format.value (below + 1) ≤ format.value (format.infinity - 1) :=
      mono.monotone (by omega)
    have next : format.value (format.infinity - 1) < format.value format.infinity :=
      mono (by omega)
    linarith

theorem of_greatest (proper : format.Proper)
    (low : format.value below ≤ number) (high : number < format.value (below + 1))
    (last : below + 1 = format.infinity)
    (picked : Picked format.value number below index) :
    Rounded format number index := by
  have half := proper.two_mul_threshold
  -- Infinity is even, so a tie with it is rounded up to it.
  have even := Nat.even_iff.mp proper.even_infinity
  obtain rfl : below = format.infinity - 1 := by omega
  rw [last] at high
  rcases picked with ⟨up, rfl⟩ | ⟨down, rfl⟩
  · refine ⟨fun near => ?_, fun _ => last⟩
    rw [RoundsUp, last] at up
    rcases up with closer | ⟨halfway, -⟩ <;> linarith
  · refine ⟨fun _ => ?_, fun far => ?_⟩
    · exact .of_not_roundsUp format.value_strictMono low (by rwa [last]) (by omega)
        down
    · rw [RoundsUp, last, not_or, not_and] at down
      have halfway := down.2 (by linarith)
      omega

theorem of_bracket (proper : format.Proper)
    (low : format.value below ≤ number) (high : number < format.value (below + 1))
    (picked : Picked format.value number below index) :
    Rounded format number (min format.infinity index) := by
  have bounds := picked.bounds
  rcases Nat.lt_trichotomy (below + 1) format.infinity with inside | last | beyond
  · rw [Nat.min_eq_right (by omega)]
    exact of_below_greatest proper low high inside picked
  · rw [Nat.min_eq_right (by omega)]
    exact of_greatest proper low high last picked
  · rw [Nat.min_eq_left (by omega)]
    refine ⟨fun near => ?_, fun _ => rfl⟩
    have half := proper.two_mul_threshold
    have reached : format.value format.infinity ≤ format.value below :=
      format.value_strictMono.monotone (by omega)
    have previous :
        format.value (format.infinity - 1) ≤ format.value format.infinity :=
      format.value_strictMono.monotone (by omega)
    linarith

theorem infinity_of_le (number_far : format.threshold ≤ number) :
    Rounded format number format.infinity :=
  ⟨fun near => absurd near (not_lt.mpr number_far), fun _ => rfl⟩

theorem zero_of_small (proper : format.Proper) (nonneg : 0 ≤ number)
    (small : 2 * number < format.value 1) : Rounded format number 0 := by
  have low : format.value 0 ≤ number := by simpa using nonneg
  have high : number < format.value (0 + 1) := by
    rw [Nat.zero_add]
    linarith
  have picked : Picked format.value number 0 0 :=
    .inr ⟨by simp [RoundsUp, small.le], rfl⟩
  simpa using of_bracket proper low high picked

end Rounded

end NumericFields.Floating
