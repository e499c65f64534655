import NumericFields.Proofs.RecordText

/-!
# Inputs quoted in records

The message of a record and what stands between it and the input show no double quote that
is not escaped, and neither does an excerpt.  So a reader of the log finds the excerpt
between the first bare quote of a record and the next one, and can undo it.
-/

namespace NumericFields

theorem Failure.guards_message (failure : Failure) :
    Escape.Guards Escape.doubleQuote .outside failure.message.toList := by
  cases failure with
  | nonNumeric byte =>
      have quotable := Escape.quotable_encode [byte]
      rw [Escape.encode_cons, Escape.encode, List.flatMap_nil, List.append_nil] at quotable
      rw [toList_message_nonNumeric]
      refine .append ?_ (.append (quotable.guards _ (by decide)) ?_)
      · exact Escape.guards_of_absent (by decide) (by decide)
      · exact Escape.guards_of_absent (by decide) (by decide)
  | invalidInput | overflow | allocation =>
      exact Escape.guards_of_absent (by decide) (by decide)

namespace Record

def opening (failure : Failure) : List Char :=
  failure.message.toList ++ " \x7binput = ".toList

theorem guards_opening (failure : Failure) :
    Escape.Guards Escape.doubleQuote .outside (opening failure) :=
  failure.guards_message.append (Escape.guards_of_absent (by decide) (by decide))

theorem toList_text_some (failure : Failure) (input : Bytes) :
    (text ⟨failure, some input⟩).toList =
      opening failure ++ Escape.doubleQuote ::
        (Excerpt.text .diagnostic input ++ Escape.doubleQuote :: "\x7d".toList) := by
  rw [toList_text, opening, inputText, Escape.doubleQuote]
  simp only [List.append_assoc, List.cons_append, List.nil_append]

theorem splitsAt_text (failure : Failure) (input : Bytes) :
    let excerpt := Excerpt.text .diagnostic input
    let rest := excerpt ++ Escape.doubleQuote :: "\x7d".toList
    Escape.SplitsAt Escape.doubleQuote (text ⟨failure, some input⟩).toList
        (opening failure) rest ∧
      Escape.SplitsAt Escape.doubleQuote rest excerpt "\x7d".toList := by
  have quotable : Escape.Quotable (Excerpt.text .diagnostic input) := Excerpt.quotable_text
  have closing := quotable.guards Escape.doubleQuote (by decide)
  rw [toList_text_some]
  exact ⟨(guards_opening failure).splitsAt _, closing.splitsAt _⟩

end Record

/-- An excerpt is printable and shows no quote that is not escaped, so that in a record
its input begins behind the first bare quote and ends at the next one, and it has at most
291 characters.  Undone, it is the input if that has up to 72 bytes, and otherwise the
first 64 bytes and a note on the number of the others.  So 72 is the greatest length of
which all inputs come back; of the longer ones just those of 81 bytes do that end in the
very note. -/
theorem excerpts_stay_in_quotes :
    (∀ input, Escape.Quotable (Excerpt.text .diagnostic input)) ∧
    (∀ failure input,
      let excerpt := Excerpt.text .diagnostic input
      let rest := excerpt ++ Escape.doubleQuote :: "\x7d".toList
      Escape.SplitsAt Escape.doubleQuote (Record.text ⟨failure, some input⟩).toList
          (Record.opening failure) rest ∧
        Escape.SplitsAt Escape.doubleQuote rest excerpt "\x7d".toList) ∧
    (∀ input : Bytes, input.length ≤ 2 ^ 64 - 1 →
      (Excerpt.text .diagnostic input).length ≤ 291) ∧
    (∀ input : Bytes, Escape.decode (Excerpt.text .diagnostic input) =
      some (if input.length ≤ 72 then input
        else input.take 64 ++ Excerpt.note (input.length - 64))) ∧
    (∀ count, String.ofList ((Excerpt.note count).map Char.ofUInt8) =
      "... " ++ toString count ++ " more bytes") ∧
    (∀ length,
      (∀ input : Bytes, input.length = length →
        Escape.decode (Excerpt.text .diagnostic input) = some input) ↔ length ≤ 72) ∧
    ∀ input : Bytes,
      Escape.decode (Excerpt.text .diagnostic input) = some input ↔
        input.length ≤ 72 ∨ input.drop 64 = Excerpt.note 17 := by
  have slack : Cutoff.diagnostic.shown + Cutoff.diagnostic.slack = 72 := rfl
  refine ⟨fun _ => Excerpt.quotable_text, Record.splitsAt_text,
    fun _ => Excerpt.length_text_le, fun input => ?_, Excerpt.ofList_note,
    fun length => ?_, fun input => ?_⟩
  · rw [Excerpt.decode_text]
    by_cases short : input.length ≤ 72
    · rw [if_pos short, Excerpt.content_whole (by omega)]
    · rw [if_neg short, Excerpt.content_cut (by omega)]
      rfl
  · simp only [Excerpt.decode_text, Option.some_inj]
    exact Excerpt.forall_content_eq_iff
  · rw [Excerpt.decode_text, Option.some_inj]
    exact Excerpt.content_eq_iff

theorem excerpt_of_longest_input :
    let longest : Bytes := List.replicate (2 ^ 64 - 1) 0xff
    longest.length ≤ 2 ^ 64 - 1 ∧ (Excerpt.text .diagnostic longest).length = 291 := by
  have addressable : (List.replicate (2 ^ 64 - 1) (0xff : UInt8)).length ≤ 2 ^ 64 - 1 :=
    List.length_replicate.le
  have reached :
      291 ≤ (Excerpt.text .diagnostic (List.replicate (2 ^ 64 - 1) 0xff)).length := by
    have shown : (Escape.encode (List.replicate 64 0xff)).length = 256 := by
      rw [Escape.encode, List.length_flatMap, List.map_replicate, List.sum_replicate_nat]
      decide
    have omitted : 19 < (Decimal.digits (2 ^ 64 - 1 - 64)).length :=
      (Decimal.lt_length_digits_iff (by decide) 19).mpr (by decide)
    rw [Excerpt.length_text_cut (by rw [List.length_replicate]; decide),
      List.take_replicate, List.length_replicate]
    simp only [Cutoff.diagnostic] at omitted ⊢
    rw [show min 64 (2 ^ 64 - 1) = 64 from rfl, shown]
    omega
  obtain ⟨-, -, bounded, -⟩ := excerpts_stay_in_quotes
  exact ⟨addressable, le_antisymm (bounded _ addressable) reached⟩

/-- An input of more than 72 bytes that comes back all the same, since the note on its last
bytes is what they are. -/
theorem counting_input_comes_back :
    let counting : Bytes := List.replicate 64 0x78 ++ Excerpt.note 17
    ¬(Escape.decode (Excerpt.text .diagnostic counting) = some counting ↔
      counting.length ≤ 72) := by
  intro counting same
  have length : counting.length = 81 := by
    rw [List.length_append, List.length_replicate, Excerpt.length_note_eq_iff.mpr rfl]
  have ending : counting.drop 64 = Excerpt.note 17 :=
    List.drop_left' List.length_replicate
  have shown : Escape.decode (Excerpt.text .diagnostic counting) = some counting := by
    rw [Excerpt.decode_text, Excerpt.content_eq_iff.mpr (.inr ending)]
  have short := same.mp shown
  omega

end NumericFields
