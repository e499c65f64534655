import NumericFields.Proofs.Text.Decimal
import NumericFields.Proofs.Text.Escape
import NumericFields.Text.Escape

/-!
# Excerpts told apart

The note on the bytes left out is itself plain text, so an excerpt is the escaped form of
its `content`: the input, or its beginning with the note behind it.  An excerpt undone is
this content, and two excerpts are equal only if their contents are.  A whole input that
imitates a cut one has to hold the note as bytes, and is then too long to be shown whole.
-/

namespace NumericFields.Excerpt

/-! ## Notes -/

/-- The bytes that the note on `count` bytes left out is the plain text of. -/
def note (count : Nat) : Bytes :=
  [0x2e, 0x2e, 0x2e, 0x20] ++ Decimal.render count ++
    [0x20, 0x6d, 0x6f, 0x72, 0x65, 0x20, 0x62, 0x79, 0x74, 0x65, 0x73]

theorem omission_eq_map (count : Nat) :
    omission count = (note count).map Char.ofUInt8 := by
  rw [note, List.map_append, List.map_append]
  rfl

theorem omission_eq_encode (count : Nat) :
    omission count = Escape.encode (note count) := by
  have number : ∀ byte ∈ Decimal.render count, Escape.Plain byte := by
    intro byte mem
    obtain ⟨digit, -, rfl⟩ := List.mem_map.mp mem
    exact Escape.plain_byte digit
  rw [note, Escape.encode_append, Escape.encode_append, Escape.encode_plain number]
  rfl

theorem ofList_note (count : Nat) :
    String.ofList ((note count).map Char.ofUInt8) =
      "... " ++ toString count ++ " more bytes" := by
  have number : (toString count).toList = Nat.toDigits 10 count := by
    rw [Nat.toString_eq_ofList_toDigits, String.toList_ofList]
  apply String.toList_inj.mp
  rw [String.toList_ofList, ← omission_eq_map, omission, Decimal.map_render,
    String.toList_append, String.toList_append, number]

theorem note_injective : Function.Injective note := by
  intro first second same
  have digits := Decimal.text_injective
    (List.append_cancel_left (List.append_cancel_right same))
  have values := congrArg Decimal.value digits
  rwa [Decimal.value_digits, Decimal.value_digits] at values

theorem length_note (count : Nat) :
    (note count).length = 15 + (Decimal.digits count).length := by
  simp only [note, List.length_append, List.length_cons, List.length_nil,
    Decimal.render, Decimal.length_text]
  omega

/-- A note has as many bytes as it says in one case only. -/
theorem length_note_eq_iff {count : Nat} : (note count).length = count ↔ count = 17 := by
  rw [length_note]
  constructor
  · intro same
    have written := List.length_pos_iff.mpr (Decimal.digits_ne_nil count)
    have places := Decimal.lt_length_digits_iff (show 0 < count by omega)
    have two : 1 < (Decimal.digits count).length := (places 1).mpr (by omega)
    by_contra other
    obtain ⟨more, rfl⟩ : ∃ more, count = 18 + more := ⟨count - 18, by omega⟩
    -- from three digits on the number outgrows its own length
    have large : 10 ^ (2 + more) ≤ 18 + more := (places _).mp (by omega)
    have small : more < 10 ^ more := Nat.lt_pow_self (by decide)
    rw [pow_add] at large
    omega
  · rintro rfl
    have short : (Decimal.digits 17).length ≤ 2 :=
      (Decimal.length_digits_le_iff (by decide)).mpr (by decide)
    have long : 1 < (Decimal.digits 17).length :=
      (Decimal.lt_length_digits_iff (by decide) 1).mpr (by decide)
    omega

/-! ## Whole and cut excerpts -/

/-- The bytes that an excerpt shows. -/
def content (cutoff : Cutoff) (input : Bytes) : Bytes :=
  if cutoff.shown + cutoff.slack < input.length then
    input.take cutoff.shown ++ note (input.length - cutoff.shown)
  else
    input

section Cutoff

variable {cutoff : Cutoff} {first second : Bytes}

theorem content_whole (short : first.length ≤ cutoff.shown + cutoff.slack) :
    content cutoff first = first :=
  if_neg (by omega)

theorem content_cut (long : cutoff.shown + cutoff.slack < first.length) :
    content cutoff first =
      first.take cutoff.shown ++ note (first.length - cutoff.shown) :=
  if_pos long

theorem text_eq_encode : text cutoff first = Escape.encode (content cutoff first) := by
  by_cases long : cutoff.shown + cutoff.slack < first.length
  · rw [content_cut long, Escape.encode_append, ← omission_eq_encode]
    exact if_pos long
  · rw [content_whole (by omega)]
    exact if_neg long

theorem decode_text : Escape.decode (text cutoff first) = some (content cutoff first) := by
  rw [text_eq_encode, Escape.decode_encode]

theorem quotable_text : Escape.Quotable (text cutoff first) := by
  rw [text_eq_encode]
  exact Escape.quotable_encode _

theorem content_whole_ne_cut (brief : cutoff.slack ≤ 15)
    (short : first.length ≤ cutoff.shown + cutoff.slack)
    (long : cutoff.shown + cutoff.slack < second.length) :
    content cutoff first ≠ content cutoff second := by
  intro same
  rw [content_whole short, content_cut long] at same
  -- the short input is the shown bytes with the note behind them, which is too long
  have length := congrArg List.length same
  have written := List.length_pos_iff.mpr
    (Decimal.digits_ne_nil (second.length - cutoff.shown))
  rw [List.length_append, List.length_take, length_note] at length
  omega

theorem content_cut_eq_iff (long : cutoff.shown + cutoff.slack < first.length)
    (long' : cutoff.shown + cutoff.slack < second.length) :
    content cutoff first = content cutoff second ↔
      first.length = second.length ∧
        first.take cutoff.shown = second.take cutoff.shown := by
  rw [content_cut long, content_cut long']
  constructor
  · intro same
    have shown : (first.take cutoff.shown).length = (second.take cutoff.shown).length := by
      rw [List.length_take, List.length_take]
      omega
    obtain ⟨front, notes⟩ := List.append_inj same shown
    have rest := note_injective notes
    exact ⟨by omega, front⟩
  · rintro ⟨length, front⟩
    rw [front, length]

theorem text_whole_ne_cut (brief : cutoff.slack ≤ 15)
    (short : first.length ≤ cutoff.shown + cutoff.slack)
    (long : cutoff.shown + cutoff.slack < second.length) :
    text cutoff first ≠ text cutoff second := by
  rw [text_eq_encode, text_eq_encode, Escape.encode_injective.ne_iff]
  exact content_whole_ne_cut brief short long

/-- Two inputs have the same excerpt only if they are equal, or both are cut and agree
on all that is shown of them. -/
theorem text_eq_iff (brief : cutoff.slack ≤ 15) :
    text cutoff first = text cutoff second ↔
      first = second ∨
        (cutoff.shown + cutoff.slack < first.length ∧ first.length = second.length ∧
          first.take cutoff.shown = second.take cutoff.shown) := by
  rw [text_eq_encode, text_eq_encode, Escape.encode_injective.eq_iff]
  by_cases long : cutoff.shown + cutoff.slack < first.length
  · by_cases long' : cutoff.shown + cutoff.slack < second.length
    · rw [content_cut_eq_iff long long']
      constructor
      · exact fun alike => .inr ⟨long, alike⟩
      · rintro (rfl | ⟨-, alike⟩)
        · exact ⟨rfl, rfl⟩
        · exact alike
    · refine iff_of_false (content_whole_ne_cut brief (by omega) long).symm ?_
      rintro (rfl | ⟨-, length, -⟩)
      · exact long' long
      · omega
  · by_cases long' : cutoff.shown + cutoff.slack < second.length
    · refine iff_of_false (content_whole_ne_cut brief (by omega) long') ?_
      rintro (rfl | ⟨long'', -⟩)
      · exact long long'
      · exact long long''
    · rw [content_whole (by omega), content_whole (by omega)]
      exact ⟨.inl, fun alike => alike.resolve_right fun cut => long cut.1⟩

/-! ## Inputs shown as themselves -/

theorem content_eq_iff_of_long (long : cutoff.shown + cutoff.slack < first.length) :
    content cutoff first = first ↔ first.drop cutoff.shown = note 17 := by
  have behind : (first.drop cutoff.shown).length = first.length - cutoff.shown :=
    List.length_drop
  have whole := List.take_append_drop cutoff.shown first
  rw [content_cut long]
  constructor
  · intro same
    have ending := List.append_cancel_left (same.trans whole.symm)
    have count := congrArg List.length ending
    rw [behind, length_note_eq_iff] at count
    rw [← ending, count]
  · intro ending
    have count := congrArg List.length ending
    rw [behind, length_note_eq_iff.mpr rfl] at count
    rw [count, ← ending, whole]

theorem content_eq_iff :
    content cutoff first = first ↔
      first.length ≤ cutoff.shown + cutoff.slack ∨ first.drop cutoff.shown = note 17 := by
  by_cases long : cutoff.shown + cutoff.slack < first.length
  · rw [content_eq_iff_of_long long, or_iff_right (by omega)]
  · exact iff_of_true (content_whole (by omega)) (.inl (by omega))

theorem forall_content_eq_iff {length : Nat} :
    (∀ input : Bytes, input.length = length → content cutoff input = input) ↔
      length ≤ cutoff.shown + cutoff.slack := by
  constructor
  · intro shown
    by_contra longer
    let zeros : Bytes := List.replicate length 0
    have count : zeros.length = length := List.length_replicate
    have ending := (content_eq_iff_of_long (by omega)).mp (shown zeros count)
    have point : 0x2e ∈ note 17 := by simp [note]
    rw [← ending] at point
    have zero := List.eq_of_mem_replicate (List.mem_of_mem_drop point)
    contradiction
  · rintro short input rfl
    exact content_whole short

end Cutoff

/-! ## The length of an excerpt -/

theorem length_text_cut {cutoff : Cutoff} {input : Bytes}
    (long : cutoff.shown + cutoff.slack < input.length) :
    (text cutoff input).length = (Escape.encode (input.take cutoff.shown)).length +
      (15 + (Decimal.digits (input.length - cutoff.shown)).length) := by
  rw [text_eq_encode, content_cut long, Escape.encode_append, List.length_append,
    ← omission_eq_encode, omission_eq_map, List.length_map, length_note]

theorem length_text_le {input : Bytes} (addressable : input.length ≤ 2 ^ 64 - 1) :
    (text .diagnostic input).length ≤ 291 := by
  have shown : Cutoff.diagnostic.shown = 64 := rfl
  have slack : Cutoff.diagnostic.slack = 8 := rfl
  by_cases long : Cutoff.diagnostic.shown + Cutoff.diagnostic.slack < input.length
  · have front := Escape.length_encode_le (input.take Cutoff.diagnostic.shown)
    have number : (Decimal.digits (input.length - Cutoff.diagnostic.shown)).length ≤ 20 :=
      (Decimal.length_digits_le_iff (by decide)).mpr (by omega)
    rw [List.length_take] at front
    rw [length_text_cut long]
    omega
  · have whole := Escape.length_encode_le input
    rw [text_eq_encode, content_whole (by omega)]
    omega

end NumericFields.Excerpt
