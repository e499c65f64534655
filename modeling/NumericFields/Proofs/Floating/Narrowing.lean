import NumericFields.Proofs.Floating.Precision
import NumericFields.Proofs.Records

/-!
# One text at two precisions

The literal that a text is searched for does not depend on the precision, and neither
does the number that it writes.  A format that ends sooner on both sides overflows
wherever the wider one does, and reads a zero wherever the wider one does.  So two
precisions fail together, except where only the narrow one overflows, and otherwise
read data of the same class and sign.
-/

namespace NumericFields.Floating

structure Format.Within (narrow wide : Format) : Prop where
  greatest : narrow.maxExponent < wide.maxExponent
  least : wide.leastExponent < narrow.leastExponent

theorem Format.single_within_double : single.Within double := ⟨by decide, by decide⟩

theorem Format.Within.threshold_le {narrow wide : Format} (within : narrow.Within wide) :
    narrow.threshold ≤ wide.threshold := by
  calc narrow.threshold
    _ ≤ 2 ^ ((narrow.maxExponent : ℤ) + 1) := narrow.threshold_le
    _ = 2 ^ (narrow.maxExponent + 1) := by norm_cast
    _ ≤ 2 ^ wide.maxExponent := pow_le_pow_right₀ one_le_two within.greatest
    _ ≤ wide.threshold := wide.le_threshold

structure Alike {format format' : Format} (narrow : Binary format)
    (wide : Binary format') : Prop where
  nan : narrow.isNaN = wide.isNaN
  infinite : narrow.isInfinite = wide.isInfinite
  sign : wide.isNaN = false → narrow.isNegative = wide.isNegative
  zero : wide.value = 0 → narrow.value = 0

inductive Verdict where
  | values
  | failures
  | narrowOverflow
  deriving DecidableEq, Repr

def Verdict.Holds {format format' : Format} (view : View)
    (narrow : Outcome (Binary format)) (wide : Outcome (Binary format')) : Verdict → Prop
  | .values =>
      ∃ datum datum', narrow.result = .ok datum ∧ wide.result = .ok datum'
  | .failures =>
      ∃ failure, narrow.result = .error failure ∧ wide.result = .error failure ∧
        narrow.log = [⟨failure, view⟩] ∧ wide.log = [⟨failure, view⟩]
  | .narrowOverflow =>
      narrow.result = .error .overflow ∧ ∃ datum, wide.result = .ok datum

inductive Paired {format format' : Format} :
    Except Failure (Binary format) → Except Failure (Binary format') → Prop
  | values {narrow : Binary format} {wide : Binary format'} (alike : Alike narrow wide) :
      Paired (.ok narrow) (.ok wide)
  | failures (failure : Failure) : Paired (.error failure) (.error failure)
  | narrowOverflow (wide : Binary format') : Paired (.error .overflow) (.ok wide)

theorem Paired.existsUnique_verdict {format format' : Format} {view : View}
    {narrow : Outcome (Binary format)} {wide : Outcome (Binary format')}
    (paired : Paired narrow.result wide.result) (recorded : narrow.Recorded view)
    (recorded' : wide.Recorded view) :
    ∃! verdict, Verdict.Holds view narrow wide verdict := by
  rcases narrow with ⟨result, log⟩
  rcases wide with ⟨result', log'⟩
  cases paired with
  | values alike =>
      refine ⟨.values, ⟨_, _, rfl, rfl⟩, fun other holds => ?_⟩
      cases other <;> simp_all [Verdict.Holds]
  | failures failure =>
      refine ⟨.failures, ⟨failure, rfl, rfl, recorded, recorded'⟩, fun other holds => ?_⟩
      cases other <;> simp_all [Verdict.Holds]
  | narrowOverflow datum =>
      refine ⟨.narrowOverflow, ⟨rfl, datum, rfl⟩, fun other holds => ?_⟩
      cases other <;> simp_all [Verdict.Holds]

/-! ## Numbers rounded to zero -/

namespace Rounded

variable {format : Format} {number : ℚ} {magnitude other : ℕ}

theorem unique (rounded : Rounded format number magnitude)
    (again : Rounded format number other) : magnitude = other := by
  rcases lt_or_ge number format.threshold with near | far
  · exact (rounded.nearest near).unique format.value_strictMono (again.nearest near)
  · exact (rounded.infinite far).trans (again.infinite far).symm

/-- A number is rounded to zero only up to half the least subnormal. -/
theorem two_mul_le_of_zero (proper : format.Proper) (nonneg : 0 ≤ number)
    (rounded : Rounded format number 0) : 2 * number ≤ format.value 1 := by
  have positive := proper.infinity_pos
  have near : number < format.threshold := by
    by_contra far
    exact positive.ne (rounded.infinite (not_lt.mp far))
  have one : 1 < format.infinity := by
    have := proper.two_le
    rw [proper.infinity_split]
    omega
  have closest := (rounded.nearest near).nearest 1 one
  have least := format.value_strictMono Nat.zero_lt_one
  rw [format.value_zero] at least closest
  rw [zero_sub, abs_neg, abs_of_nonneg nonneg] at closest
  rcases abs_cases (format.value 1 - number) with ⟨same, -⟩ | ⟨same, -⟩ <;> linarith

theorem zero_of_zero {narrow wide : Format} (within : narrow.Within wide)
    (proper : narrow.Proper) (proper' : wide.Proper) (nonneg : 0 ≤ number)
    (rounded : Rounded narrow number magnitude) (zero : Rounded wide number 0) :
    magnitude = 0 := by
  refine rounded.unique (.zero_of_small proper nonneg ?_)
  calc 2 * number
    _ ≤ wide.value 1 := two_mul_le_of_zero proper' nonneg zero
    _ = 2 ^ wide.leastExponent := wide.value_one
    _ < 2 ^ narrow.leastExponent := zpow_lt_zpow_right₀ one_lt_two within.least
    _ = narrow.value 1 := narrow.value_one.symm

end Rounded

/-! ## Data of two formats -/

section Data

variable {narrow wide : Format} {magnitude magnitude' : ℕ}

theorem alike_ofParts (negative : Bool) (small : magnitude < 2 ^ narrow.magnitudeBits)
    (small' : magnitude' < 2 ^ wide.magnitudeBits)
    (nan : narrow.infinity < magnitude ↔ wide.infinity < magnitude')
    (infinite : magnitude = narrow.infinity ↔ magnitude' = wide.infinity)
    (zero : magnitude' = 0 → magnitude = 0) :
    Alike (.ofParts negative magnitude : Binary narrow)
      (.ofParts negative magnitude' : Binary wide) where
  nan := by
    rw [Bool.eq_iff_iff, Binary.isNaN_ofParts negative small,
      Binary.isNaN_ofParts negative small', nan]
  infinite := by
    rw [Bool.eq_iff_iff, Binary.isInfinite_ofParts negative small,
      Binary.isInfinite_ofParts negative small', infinite]
  sign _ := by
    rw [Binary.isNegative_ofParts negative small,
      Binary.isNegative_ofParts negative small']
  zero := by
    rw [Binary.value_eq_zero_iff, Binary.value_eq_zero_iff,
      Binary.magnitude_ofParts negative small, Binary.magnitude_ofParts negative small']
    exact zero

theorem alike_ofWord (proper : narrow.Proper) (proper' : wide.Proper) (negative : Bool)
    (name : Word) :
    Alike (.ofWord negative name : Binary narrow)
      (.ofWord negative name : Binary wide) := by
  have infinities : Alike (.ofParts negative narrow.infinity : Binary narrow)
      (.ofParts negative wide.infinity : Binary wide) :=
    alike_ofParts negative narrow.infinity_lt wide.infinity_lt (by simp) (by simp)
      fun zero => absurd zero proper'.infinity_pos.ne'
  have above := narrow.infinity_lt_notANumber
  have above' := wide.infinity_lt_notANumber
  cases name with
  | infinity => exact infinities
  | inf => exact infinities
  | nan =>
      exact alike_ofParts negative proper.notANumber_lt proper'.notANumber_lt
        (iff_of_true above above') (iff_of_false above.ne' above'.ne') (by omega)

variable {number : ℚ}

theorem alike_of_rounded (within : narrow.Within wide) (proper : narrow.Proper)
    (proper' : wide.Proper) (negative : Bool) (nonneg : 0 ≤ number)
    (near : number < narrow.threshold) (rounded : Rounded narrow number magnitude)
    (rounded' : Rounded wide number magnitude') :
    Alike (.ofParts negative magnitude : Binary narrow)
      (.ofParts negative magnitude' : Binary wide) := by
  have inside := (rounded.nearest near).inside
  have inside' := (rounded'.nearest (near.trans_le within.threshold_le)).inside
  refine alike_ofParts negative (inside.trans narrow.infinity_lt)
    (inside'.trans wide.infinity_lt) (iff_of_false inside.not_gt inside'.not_gt)
    (iff_of_false inside.ne inside'.ne) ?_
  rintro rfl
  exact rounded.zero_of_zero within proper proper' nonneg rounded'

end Data

/-! ## The two readings -/

section Readings

variable {narrow wide : Format} {text : Bytes}

theorem paired_of_numeral (within : narrow.Within wide) (proper : narrow.Proper)
    (proper' : wide.Proper) {found : LiteralPrefix} {literal : Literal}
    (scanned : LiteralPrefix.find? text = some found)
    (spelled : literal.Spelled found.text) {numeral : Numeral}
    (body : literal.body = .numeral numeral) :
    Paired (parse (.binary narrow) (some text)).result
      (parse (.binary wide) (some text)).result := by
  obtain ⟨magnitude, rounded, read⟩ :=
    exists_rounded_of_numeral proper scanned spelled body
  obtain ⟨magnitude', rounded', read'⟩ :=
    exists_rounded_of_numeral proper' scanned spelled body
  rw [read, read']
  -- Of the three ranges that the thresholds part, only the middle one tells the
  -- precisions apart.
  have ordered := within.threshold_le
  rcases lt_or_ge numeral.value narrow.threshold with near | far
  · rw [if_neg near.not_ge, if_neg (near.trans_le ordered).not_ge]
    exact .values (alike_of_rounded within proper proper' _ numeral.value_nonneg near
      rounded rounded')
  · rw [if_pos far]
    by_cases beyond : wide.threshold ≤ numeral.value
    · rw [if_pos beyond]
      exact .failures .overflow
    · rw [if_neg beyond]
      exact .narrowOverflow _

theorem paired_of_word (proper : narrow.Proper) (proper' : wide.Proper)
    {found : LiteralPrefix} {literal : Literal}
    (scanned : LiteralPrefix.find? text = some found)
    (spelled : literal.Spelled found.text) {name : Word}
    (body : literal.body = .word name) :
    Paired (parse (.binary narrow) (some text)).result
      (parse (.binary wide) (some text)).result := by
  rw [result_parse_of_word scanned spelled body, result_parse_of_word scanned spelled body]
  exact .values (alike_ofWord proper proper' literal.isNegative name)

theorem paired_parse (within : narrow.Within wide) (proper : narrow.Proper)
    (proper' : wide.Proper) (view : View) :
    Paired (parse (.binary narrow) view).result (parse (.binary wide) view).result := by
  rcases view with _ | _ | ⟨first, rest⟩
  · exact .failures .invalidInput
  · exact .failures .invalidInput
  · cases scanned : LiteralPrefix.find? (first :: rest) with
    | none =>
        have unread (format : Format) :
            (parse (.binary format) (some (first :: rest))).result =
            .error (.nonNumeric (rejectedByte (first :: rest))) := by
          rw [result_parse_eq_read _ (List.cons_ne_nil _ _), read, scanned]
        rw [unread, unread]
        exact .failures _
    | some found =>
        obtain ⟨-, literal, spelled, -⟩ := LiteralPrefix.longest_of_find? scanned
        cases body : literal.body with
        | word name => exact paired_of_word proper proper' scanned spelled body
        | numeral parts =>
            exact paired_of_numeral within proper proper' scanned spelled body

end Readings

/-- Either both precisions read the view, or both fail alike and record the same, or
the single one alone overflows.  Two data that are read have the same class and, unless
they are not numbers, the same sign, and where the double one is a zero so is the
single one. -/
theorem precisions_differ_by_overflow (view : View) :
    (∃! verdict, Verdict.Holds view (parseSingle view) (parseDouble view) verdict) ∧
      ∀ single double, (parseSingle view).result = .ok single →
        (parseDouble view).result = .ok double → Alike single double := by
  have paired : Paired (parseSingle view).result (parseDouble view).result :=
    paired_parse Format.single_within_double Format.proper_single Format.proper_double view
  refine ⟨paired.existsUnique_verdict (Outcome.recorded_reading ..)
    (Outcome.recorded_reading ..), fun single double read read' => ?_⟩
  rw [read, read'] at paired
  cases paired with
  | values alike => exact alike

theorem tiny_single_is_zero :
    let text : Bytes := [0x2d, 0x31, 0x65, 0x2d, 0x34, 0x36]
    let single : Binary .single := ⟨0x80000000⟩
    let double : Binary .double := ⟨0xb66244ce242c5561⟩
    (parseSingle (some text)).result = .ok single ∧
      (parseDouble (some text)).result = .ok double ∧ Alike single double := by
  have read : (parseSingle (some [0x2d, 0x31, 0x65, 0x2d, 0x34, 0x36])).result =
      .ok ⟨0x80000000⟩ := by
    decide
  have read' : (parseDouble (some [0x2d, 0x31, 0x65, 0x2d, 0x34, 0x36])).result =
      .ok ⟨0xb66244ce242c5561⟩ := by
    decide
  exact ⟨read, read', (precisions_differ_by_overflow _).2 _ _ read read'⟩

end NumericFields.Floating
