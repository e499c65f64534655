import NumericFields.Proofs.Floating.Classification

/-!
# What stands around a literal

White space in front of a text is passed over, and what stands behind the literal found
is not looked at again: the literal alone is found as a whole and answered like the text.
More bytes behind the text may make the literal longer, but do not take from it or turn
a number into a word.
-/

namespace NumericFields.Floating

inductive SameAnswer {α : Type u} : Except Failure α → Except Failure α → Prop
  | value (value : α) : SameAnswer (.ok value) (.ok value)
  | overflow : SameAnswer (.error .overflow) (.error .overflow)
  | nonNumeric (byte : UInt8) :
      SameAnswer (.error (.nonNumeric byte)) (.error (.nonNumeric byte))

/-- The answer is a number, or that a number is too large. -/
def IsNumeric {α : Type u} (result : Except Failure α) : Prop :=
  (∃ value, result = .ok value) ∨ result = .error .overflow

theorem Literal.ne_nil_of_spelled {literal : Literal} {text : Bytes}
    (spelled : literal.Spelled text) : text ≠ [] := by
  have found := LiteralPrefix.find?_of_spelled spelled
  rintro rfl
  contradiction

/-! ## One literal and one rejected byte -/

section Reading

variable {α : Type u} {target : Target α} {text other : Bytes}

theorem read_congr (found : LiteralPrefix.find? text = LiteralPrefix.find? other)
    (byte : rejectedByte text = rejectedByte other) :
    read target text = read target other := by
  rw [read, read, found, byte]

theorem sameAnswer_read (target : Target α) (text : Bytes) :
    SameAnswer (read target text) (read target text) := by
  rw [read]
  split
  · exact .nonNumeric _
  · split
    · exact .nonNumeric _
    · split
      · exact .overflow
      · exact .value _

theorem sameAnswer_parse (nonempty : text ≠ []) (nonempty' : other ≠ [])
    (same : read target text = read target other) :
    SameAnswer (parse target (some text)).result (parse target (some other)).result := by
  rw [result_parse_eq_read target nonempty, result_parse_eq_read target nonempty', same]
  exact sameAnswer_read target other

theorem read_space_append {space : Bytes} (blank : ∀ byte ∈ space, isSpace byte = true)
    (nonempty : text ≠ []) : read target (space ++ text) = read target text := by
  have dropped : dropSpace (space ++ text) = dropSpace text :=
    List.dropWhile_append_of_pos blank
  apply read_congr
  · rw [LiteralPrefix.find?_eq, LiteralPrefix.find?_eq, dropped]
  · -- a text of nothing but white space is refused for its last byte, which is the same
    rw [rejectedByte, rejectedByte, dropped, List.getLast?_append_of_ne_nil _ nonempty]

end Reading

/-! ## The literal on its own -/

namespace LiteralPrefix

variable {text : Bytes} {found : LiteralPrefix}

theorem text_ne_nil (scanned : find? text = some found) : found.text ≠ [] := by
  obtain ⟨-, literal, spelled, -⟩ := longest_of_find? scanned
  exact Literal.ne_nil_of_spelled spelled

theorem find?_text (scanned : find? text = some found) :
    find? found.text = some found := by
  obtain ⟨-, literal, spelled, finite⟩ := longest_of_find? scanned
  rw [find?_of_spelled spelled, ← finite]

theorem rejectedByte_text (scanned : find? text = some found) :
    rejectedByte found.text = rejectedByte text := by
  obtain ⟨longest, literal, spelled, -⟩ := longest_of_find? scanned
  obtain ⟨behind, split⟩ := longest.isPrefix
  -- the literal begins where the white space ends, with the byte in question
  obtain ⟨first, rest, written⟩ := List.exists_cons_of_ne_nil (text_ne_nil scanned)
  rw [rejectedByte, rejectedByte, Literal.dropSpace_of_spelled spelled, ← split, written]
  rfl

theorem find?_append (scanned : find? text = some found) (more : Bytes) :
    ∃ longer, find? (text ++ more) = some ⟨found.text ++ longer, found.isFinite⟩ := by
  obtain ⟨longest, literal, spelled, finite⟩ := longest_of_find? scanned
  obtain ⟨behind, split⟩ := longest.isPrefix
  have begun : dropSpace text ≠ [] := by
    rw [← split]
    exact List.append_ne_nil_of_left_ne_nil (text_ne_nil scanned) behind
  have dropped : dropSpace (text ++ more) = found.text ++ (behind ++ more) := by
    rw [← List.append_assoc, split, dropSpace, List.dropWhile_append,
      if_neg (by simpa [dropSpace] using begun)]
    rfl
  obtain ⟨left, again, shorter⟩ := afterLiteral?_append spelled (behind ++ more)
  rw [← dropped, ← finite] at again
  obtain ⟨front, found', split'⟩ := find?_of_afterLiteral? again
  have total := congrArg List.length (dropped.symm.trans split')
  simp only [List.length_append] at total shorter
  obtain ⟨longer, rfl⟩ : found.text <+: front :=
    List.prefix_of_prefix_length_le ⟨_, dropped.symm⟩ ⟨_, split'.symm⟩ (by omega)
  exact ⟨longer, found'⟩

end LiteralPrefix

/-! ## Formats -/

theorem isNumeric_parse_binary_iff (format : Format) (text : Bytes) :
    IsNumeric (parse (.binary format) (some text)).result ↔
      ∃ found, LiteralPrefix.find? text = some found := by
  by_cases nonempty : text = []
  · subst nonempty
    have none : LiteralPrefix.find? [] = none := rfl
    simp [none, parse, Outcome.reading, IsNumeric]
  · rw [result_parse_eq_read _ nonempty, read]
    cases scanned : LiteralPrefix.find? text with
    | none => simp [IsNumeric]
    | some found =>
        obtain ⟨longest, -⟩ := LiteralPrefix.longest_of_find? scanned
        have taken := (isSome_read?_binary_iff format found.text).mpr longest.isLiteral
        obtain ⟨datum, taken⟩ := Option.isSome_iff_exists.mp taken
        simp only [taken, Option.some.injEq, exists_eq', iff_true]
        split
        · exact .inr rfl
        · exact .inl ⟨datum, rfl⟩

theorem IsNumeric.parse_append {format : Format} {text : Bytes}
    (numeric : IsNumeric (parse (.binary format) (some text)).result) (more : Bytes) :
    IsNumeric (parse (.binary format) (some (text ++ more))).result := by
  rw [isNumeric_parse_binary_iff] at numeric ⊢
  obtain ⟨found, scanned⟩ := numeric
  obtain ⟨longer, scanned'⟩ := LiteralPrefix.find?_append scanned more
  exact ⟨_, scanned'⟩

/-- A target answers a text like the literal in it, and like the text behind any white
space.  The literal is found on its own as it is found in the text, and at the front of
a longer literal, finite or not as it is, when bytes are added to the text.  So a text
that is a number for a precision stays one whatever is added to it. -/
theorem answers_depend_on_literal {α : Type u} (target : Target α) :
    (∀ space text : Bytes, (∀ byte ∈ space, isSpace byte = true) → text ≠ [] →
      SameAnswer (parse target (some (space ++ text))).result
        (parse target (some text)).result) ∧
    (∀ text found, LiteralPrefix.find? text = some found →
      LiteralPrefix.find? found.text = some found ∧
        SameAnswer (parse target (some found.text)).result
          (parse target (some text)).result) ∧
    (∀ text found more, LiteralPrefix.find? text = some found →
      ∃ longer, LiteralPrefix.find? (text ++ more) =
        some ⟨found.text ++ longer, found.isFinite⟩) ∧
    ∀ text more : Bytes,
      (IsNumeric (parseSingle (some text)).result →
        IsNumeric (parseSingle (some (text ++ more))).result) ∧
      (IsNumeric (parseDouble (some text)).result →
        IsNumeric (parseDouble (some (text ++ more))).result) := by
  refine ⟨fun space text blank nonempty => ?_, fun text found scanned => ⟨?_, ?_⟩,
    fun text found more scanned => LiteralPrefix.find?_append scanned more,
    fun text more => ⟨?_, ?_⟩⟩
  · have longer : space ++ text ≠ [] :=
      List.append_ne_nil_of_right_ne_nil space nonempty
    exact sameAnswer_parse longer nonempty (read_space_append blank nonempty)
  · exact LiteralPrefix.find?_text scanned
  · have nonempty : text ≠ [] := by
      rintro rfl
      contradiction
    apply sameAnswer_parse (LiteralPrefix.text_ne_nil scanned) nonempty
    exact read_congr ((LiteralPrefix.find?_text scanned).trans scanned.symm)
      (LiteralPrefix.rejectedByte_text scanned)
  · exact fun numeric => numeric.parse_append more
  · exact fun numeric => numeric.parse_append more

/-- An exponent that is left to the rest of the text until it has a digit. -/
theorem digit_completes_exponent :
    let text : Bytes := [0x20, 0x31, 0x65]
    (∀ byte ∈ [0x09], isSpace byte = true) ∧ text ≠ [] ∧
      SameAnswer (parseDouble (some (0x09 :: text))).result
        (parseDouble (some text)).result ∧
      LiteralPrefix.find? text = some ⟨[0x31], true⟩ ∧
      LiteralPrefix.find? [0x31] = some ⟨[0x31], true⟩ ∧
      SameAnswer (parseDouble (some [0x31])).result (parseDouble (some text)).result ∧
      (∃ longer, LiteralPrefix.find? (text ++ [0x35]) = some ⟨0x31 :: longer, true⟩) ∧
      IsNumeric (parseDouble (some text)).result ∧
      IsNumeric (parseDouble (some (text ++ [0x35]))).result := by
  have blank : ∀ byte ∈ [0x09], isSpace byte = true := List.forall_mem_singleton.mpr rfl
  have scanned : LiteralPrefix.find? [0x20, 0x31, 0x65] = some ⟨[0x31], true⟩ := by decide
  have numeric : IsNumeric (parseDouble (some [0x20, 0x31, 0x65])).result :=
    (isNumeric_parse_binary_iff .double _).mpr ⟨_, scanned⟩
  obtain ⟨spaced, alone, extended, added⟩ := answers_depend_on_literal Target.double
  obtain ⟨whole, same⟩ := alone _ _ scanned
  exact ⟨blank, by decide, spaced _ _ blank (by decide), scanned, whole, same,
    extended _ _ [0x35] scanned, numeric, (added _ [0x35]).2 numeric⟩

end NumericFields.Floating
