import NumericFields.Outcome
import NumericFields.Proofs.Text.Excerpt

/-!
# What the text of a record tells

Messages differ within their first three characters, and the byte in a message is
escaped, so a record's text determines its failure.  What follows tells null from
bytes by its first character, and bytes from each other as far as they are shown.
-/

namespace NumericFields

/-! ## Messages -/

namespace Failure

def initials : Failure → List Char
  | .invalidInput => ['N', 'u', 'l']
  | .nonNumeric _ => ['N', 'o', 'n']
  | .overflow => ['N', 'u', 'm']
  | .allocation => ['F', 'a', 'i']

theorem toList_message_nonNumeric (byte : UInt8) :
    (nonNumeric byte).message.toList =
      "Non-numeric data found: '".toList ++ (Escape.encodeByte byte ++ "'".toList) := by
  have joined : (nonNumeric byte).message =
      "Non-numeric data found: '" ++ String.ofList (Escape.encodeByte byte) ++ "'" := rfl
  simp only [joined, String.toList_append, String.toList_ofList, List.append_assoc]

theorem take_message_append (failure : Failure) (rest : List Char) :
    (failure.message.toList ++ rest).take 3 = failure.initials := by
  cases failure with
  | nonNumeric byte =>
      rw [toList_message_nonNumeric]
      simp [initials]
  | invalidInput =>
      rw [show invalidInput.message = "Null, empty, or truncated input." from rfl]
      simp [initials]
  | overflow =>
      rw [show overflow.message = "Numeric overflow." from rfl]
      simp [initials]
  | allocation =>
      rw [show allocation.message = "Failed to allocate output buffer." from rfl]
      simp [initials]

theorem eq_or_nonNumeric_of_initials {first second : Failure}
    (same : first.initials = second.initials) :
    first = second ∨
      ∃ byte byte', first = nonNumeric byte ∧ second = nonNumeric byte' := by
  cases first <;> cases second <;> simp [initials] at same ⊢

theorem message_append_inj {first second : Failure} {front back : List Char}
    (same : first.message.toList ++ front = second.message.toList ++ back) :
    first = second ∧ front = back := by
  have initials := congrArg (List.take 3) same
  rw [take_message_append, take_message_append] at initials
  -- What the initials leave open is the byte, escaped between equal texts.
  rcases eq_or_nonNumeric_of_initials initials with rfl | ⟨byte, byte', rfl, rfl⟩
  · exact ⟨rfl, List.append_cancel_left same⟩
  · simp only [toList_message_nonNumeric, List.append_assoc] at same
    obtain ⟨rfl, rest⟩ := Escape.encodeByte_append_inj (List.append_cancel_left same)
    exact ⟨rfl, List.append_cancel_left rest⟩

end Failure

/-! ## Inputs -/

namespace Record

inductive LooksAlike : View → View → Prop
  | null : LooksAlike none none
  | equal (bytes : Bytes) : LooksAlike (some bytes) (some bytes)
  | cut {first second : Bytes} (long : 72 < first.length)
      (length : first.length = second.length)
      (front : first.take 64 = second.take 64) :
      LooksAlike (some first) (some second)

theorem inputText_some_ne_none (bytes : Bytes) :
    inputText (some bytes) ≠ inputText none := by
  intro same
  have quote := congrArg List.head? same
  simp [inputText] at quote

theorem inputText_some_eq_iff (first second : Bytes) :
    inputText (some first) = inputText (some second) ↔
      LooksAlike (some first) (some second) := by
  have brief : Cutoff.diagnostic.slack ≤ 15 := by decide
  rw [inputText, inputText, List.cons.injEq, List.append_cancel_right_eq,
    Excerpt.text_eq_iff brief, and_iff_right rfl]
  constructor
  · rintro (rfl | ⟨long, length, front⟩)
    · exact .equal first
    · exact .cut long length front
  · rintro (_ | _ | ⟨long, length, front⟩)
    · exact .inl rfl
    · exact .inr ⟨long, length, front⟩

theorem inputText_eq_iff (first second : View) :
    inputText first = inputText second ↔ LooksAlike first second := by
  rcases first with _ | first <;> rcases second with _ | second
  · exact iff_of_true rfl .null
  · exact iff_of_false (inputText_some_ne_none second).symm nofun
  · exact iff_of_false (inputText_some_ne_none first) nofun
  · exact inputText_some_eq_iff first second

theorem toList_text (record : Record) :
    record.text.toList =
      record.failure.message.toList ++
        (" \x7binput = ".toList ++ (inputText record.input ++ "\x7d".toList)) := by
  simp only [text, String.toList_append, String.toList_ofList, List.append_assoc]

theorem text_eq_iff (first second : Record) :
    first.text = second.text ↔
      first.failure = second.failure ∧ LooksAlike first.input second.input := by
  rw [← String.toList_inj, toList_text, toList_text, ← inputText_eq_iff]
  constructor
  · intro same
    obtain ⟨failures, rest⟩ := Failure.message_append_inj same
    exact ⟨failures, List.append_cancel_right (List.append_cancel_left rest)⟩
  · rintro ⟨failures, inputs⟩
    rw [failures, inputs]

end Record

/-- Rejections leave the same text only if they are for the same failure and for inputs
that look alike: both null, equal, or both cut with the same length and the same bytes
shown.  No input that is shown whole looks like one that is cut, and no bytes look like
null. -/
theorem rejections_identify_inputs {α : Type u} {β : Type v} :
    (∀ first second input other,
      (Outcome.reject first input : Outcome α).log.map Record.text =
          (Outcome.reject second other : Outcome β).log.map Record.text ↔
        first = second ∧ Record.LooksAlike input other) ∧
    (∀ short long : Bytes, short.length ≤ 72 → 72 < long.length →
      Excerpt.text .diagnostic short ≠ Excerpt.text .diagnostic long) ∧
    ∀ bytes, Record.inputText (some bytes) ≠ Record.inputText none := by
  refine ⟨fun first second input other => ?_, fun short long whole cut => ?_,
    Record.inputText_some_ne_none⟩
  · rw [Outcome.log_reject, Outcome.log_reject, List.map_singleton, List.map_singleton,
      List.singleton_inj, Record.text_eq_iff]
  · exact Excerpt.text_whole_ne_cut (by decide) whole cut

theorem rejections_of_long_digits :
    let whole : Bytes := List.replicate 72 0x39
    (Outcome.reject .overflow (some (whole ++ [0x38])) : Outcome UInt8).log.map
          Record.text =
        (Outcome.reject .overflow (some (whole ++ [0x39])) : Outcome UInt8).log.map
          Record.text ∧
      whole.length ≤ 72 ∧ 72 < (whole ++ [0x39]).length ∧
      Excerpt.text .diagnostic whole ≠ Excerpt.text .diagnostic (whole ++ [0x39]) := by
  obtain ⟨identify, whole_ne_cut, -⟩ :=
    rejections_identify_inputs (α := UInt8) (β := UInt8)
  refine ⟨(identify ..).mpr ⟨rfl, .cut ?_ ?_ ?_⟩, ?_, ?_, whole_ne_cut _ _ ?_ ?_⟩
  all_goals decide

end NumericFields
