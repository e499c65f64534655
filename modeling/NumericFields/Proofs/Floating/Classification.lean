import Mathlib.Data.List.TakeWhile
import NumericFields.Proofs.Floating.Grammar
import NumericFields.Proofs.Floating.LongestPrefix

/-!
# What a floating-point text is answered with

The answer depends on the longest literal at the front of the text and on what the
target makes of it.  A text that is no number is refused for its first byte behind the
white space, and one of nothing but white space for its last byte.
-/

namespace NumericFields.Floating

inductive StopsAt : Bytes → UInt8 → Prop
  | solid {space rest : Bytes} {byte : UInt8}
      (blank : ∀ other ∈ space, isSpace other = true) (solid : isSpace byte = false) :
      StopsAt (space ++ byte :: rest) byte
  | blank {space : Bytes} {byte : UInt8}
      (blank : ∀ other ∈ space ++ [byte], isSpace other = true) :
      StopsAt (space ++ [byte]) byte

/-- The answers of a target, each with the views that it is given to. -/
inductive Classified {α : Type u} (target : Target α) : View → Except Failure α → Prop
  | null : Classified target none (.error .invalidInput)
  | empty : Classified target (some []) (.error .invalidInput)
  | noLiteral {text : Bytes} {byte : UInt8} (stops : StopsAt text byte)
      (absent : ∀ front, front <+: dropSpace text → ¬IsLiteral front) :
      Classified target (some text) (.error (.nonNumeric byte))
  | refused {text front : Bytes} {byte : UInt8} (stops : StopsAt text byte)
      (longest : LongestLiteral (dropSpace text) front)
      (refused : target.read? front = none) :
      Classified target (some text) (.error (.nonNumeric byte))
  | overflow {text front : Bytes} {literal : Literal} {value : α}
      (longest : LongestLiteral (dropSpace text) front)
      (spelled : literal.Spelled front) (read : target.read? front = some value)
      (finite : literal.isFinite = true) (infinite : target.isInfinite value = true) :
      Classified target (some text) (.error .overflow)
  | value {text front : Bytes} {literal : Literal} {value : α}
      (longest : LongestLiteral (dropSpace text) front)
      (spelled : literal.Spelled front) (read : target.read? front = some value)
      (held : literal.isFinite = true → target.isInfinite value = false) :
      Classified target (some text) (.ok value)

/-! ## The byte in a refusal -/

theorem StopsAt.mem {text : Bytes} {byte : UInt8} (stops : StopsAt text byte) :
    byte ∈ text := by
  cases stops with
  | solid blank solid => simp
  | blank blank => simp

theorem StopsAt.eq_rejectedByte {text : Bytes} {byte : UInt8} (stops : StopsAt text byte) :
    byte = rejectedByte text := by
  cases stops with
  | solid blank solid =>
      rw [rejectedByte, dropSpace, List.dropWhile_append_of_pos blank,
        List.dropWhile_cons, if_neg (by simp [solid])]
      rfl
  | blank blank =>
      rw [rejectedByte, dropSpace, List.dropWhile_eq_nil_iff.mpr blank,
        List.getLast?_concat]
      rfl

theorem stopsAt_rejectedByte {text : Bytes} (nonempty : text ≠ []) :
    StopsAt text (rejectedByte text) := by
  have stops : ∃ byte, StopsAt text byte := by
    obtain ⟨space, split, blank, solid⟩ := dropSpace_split text
    cases behind : dropSpace text with
    | nil =>
        rw [behind, List.append_nil] at split
        subst split
        obtain ⟨front, last, joined⟩ := List.eq_nil_or_concat text |>.resolve_left nonempty
        rw [List.concat_eq_append] at joined
        subst joined
        exact ⟨last, .blank blank⟩
    | cons first rest =>
        rw [behind] at split solid
        rw [split]
        exact ⟨first, .solid blank (solid first rfl)⟩
  obtain ⟨byte, stops⟩ := stops
  exact stops.eq_rejectedByte ▸ stops

theorem StopsAt.ne_nil {text : Bytes} {byte : UInt8} (stops : StopsAt text byte) :
    text ≠ [] :=
  List.ne_nil_of_mem stops.mem

/-! ## The answer -/

section Answer

variable {α : Type u} {target : Target α} {text front : Bytes} {literal : Literal}

theorem find?_of_longest (longest : LongestLiteral (dropSpace text) front)
    (spelled : literal.Spelled front) :
    LiteralPrefix.find? text = some ⟨front, literal.isFinite⟩ :=
  (LiteralPrefix.find?_eq_some_iff _ _).mpr ⟨longest, literal, spelled, rfl⟩

theorem LongestLiteral.ne_nil (longest : LongestLiteral (dropSpace text) front) :
    text ≠ [] := by
  obtain ⟨literal, spelled⟩ := longest.isLiteral
  have found := find?_of_longest longest spelled
  rintro rfl
  contradiction

theorem read_of_refused (longest : LongestLiteral (dropSpace text) front)
    (refused : target.read? front = none) :
    read target text = .error (.nonNumeric (rejectedByte text)) := by
  obtain ⟨literal, spelled⟩ := longest.isLiteral
  rw [read, find?_of_longest longest spelled]
  simp only [refused]

theorem read_of_value (longest : LongestLiteral (dropSpace text) front)
    (spelled : literal.Spelled front) {value : α}
    (taken : target.read? front = some value) :
    read target text =
      if literal.isFinite && target.isInfinite value then .error .overflow
      else .ok value := by
  rw [read, find?_of_longest longest spelled]
  simp only [taken]

theorem classified_read (nonempty : text ≠ []) :
    Classified target (some text) (read target text) := by
  have stops := stopsAt_rejectedByte nonempty
  cases scanned : LiteralPrefix.find? text with
  | none =>
      rw [read, scanned]
      exact .noLiteral stops ((LiteralPrefix.find?_eq_none_iff text).mp scanned)
  | some found =>
      obtain ⟨longest, literal, spelled, -⟩ := LiteralPrefix.longest_of_find? scanned
      cases taken : target.read? found.text with
      | none =>
          rw [read_of_refused longest taken]
          exact .refused stops longest taken
      | some value =>
          rw [read_of_value longest spelled taken]
          split
          · next both =>
              rw [Bool.and_eq_true] at both
              exact .overflow longest spelled taken both.1 both.2
          · next either =>
              refine .value longest spelled taken fun finite => ?_
              simpa [finite] using either

theorem classified_parse (target : Target α) (view : View) :
    Classified target view (parse target view).result := by
  rcases view with _ | text
  · exact .null
  · by_cases nonempty : text = []
    · subst nonempty
      exact .empty
    · rw [result_parse_eq_read target nonempty]
      exact classified_read nonempty

theorem result_of_classified {view : View} {result : Except Failure α}
    (classified : Classified target view result) :
    (parse target view).result = result := by
  cases classified with
  | null => rfl
  | empty => rfl
  | noLiteral stops absent =>
      rw [result_parse_eq_read target stops.ne_nil, stops.eq_rejectedByte, read,
        (LiteralPrefix.find?_eq_none_iff _).mpr absent]
  | refused stops longest refused =>
      rw [result_parse_eq_read target stops.ne_nil, stops.eq_rejectedByte,
        read_of_refused longest refused]
  | overflow longest spelled taken finite infinite =>
      rw [result_parse_eq_read target longest.ne_nil,
        read_of_value longest spelled taken, finite, infinite]
      rfl
  | @value text front literal value longest spelled taken held =>
      rw [result_parse_eq_read target longest.ne_nil,
        read_of_value longest spelled taken]
      cases finite : literal.isFinite with
      | false => rfl
      | true =>
          rw [held finite]
          rfl

theorem result_parse_eq_iff (target : Target α) (view : View)
    (result : Except Failure α) :
    (parse target view).result = result ↔ Classified target view result := by
  refine ⟨?_, result_of_classified⟩
  rintro rfl
  exact classified_parse target view

theorem result_parse_eq_invalidInput_iff (target : Target α) (view : View) :
    (parse target view).result = .error .invalidInput ↔ view = none ∨ view = some [] := by
  rw [result_parse_eq_iff]
  constructor
  · rintro (_ | _)
    · exact .inl rfl
    · exact .inr rfl
  · rintro (rfl | rfl)
    · exact .null
    · exact .empty

end Answer

/-! ## Formats -/

theorem isSome_read?_binary_iff (format : Format) (text : Bytes) :
    ((Target.binary format).read? text).isSome = true ↔ IsLiteral text := by
  rw [Target.binary, Option.isSome_map, Option.isSome_iff_exists]
  exact exists_congr fun literal => Literal.read?_eq_some_iff

theorem result_parse_binary_eq_nonNumeric_iff (format : Format) (view : View)
    (byte : UInt8) :
    (parse (.binary format) view).result = .error (.nonNumeric byte) ↔
      ∃ text ∈ view, StopsAt text byte ∧
        ∀ front, front <+: dropSpace text → ¬IsLiteral front := by
  rw [result_parse_eq_iff]
  constructor
  · intro classified
    cases classified with
    | noLiteral stops absent => exact ⟨_, rfl, stops, absent⟩
    | refused stops longest refused =>
        have taken := (isSome_read?_binary_iff format _).mpr longest.isLiteral
        rw [refused] at taken
        contradiction
  · rintro ⟨text, rfl, stops, absent⟩
    exact .noLiteral stops absent

/-- What a target answers is the one thing that its view, the longest literal in it and
the target's reading of that literal allow; it has no input to read only if the view is
null or empty, and a byte that it refuses is in the view.  Every literal is a string,
which a target that reads strings is given.  The two precisions read all literals and
nothing else, so they refuse a byte exactly if there is no literal. -/
theorem parses_as_classified {α : Type u} :
    (∀ (target : Target α) view,
      (∀ result,
        (parse target view).result = result ↔ Classified target view result) ∧
      ((parse target view).result = .error .invalidInput ↔
        view = none ∨ view = some [])) ∧
    (∀ text byte, StopsAt text byte → byte ∈ text) ∧
    (∀ front, IsLiteral front → ∃ string : String, string.toUTF8 = front.toByteArray ∧
      ∀ (read? : String → Option α) isInfinite,
        (Target.ofString read? isInfinite).read? front = read? string) ∧
    (∀ format front,
      ((Target.binary format).read? front).isSome = true ↔ IsLiteral front) ∧
    ∀ view byte,
      let unread := ∃ text ∈ view, StopsAt text byte ∧
        ∀ front, front <+: dropSpace text → ¬IsLiteral front
      ((parseSingle view).result = .error (.nonNumeric byte) ↔ unread) ∧
        ((parseDouble view).result = .error (.nonNumeric byte) ↔ unread) := by
  refine ⟨fun target view => ⟨result_parse_eq_iff target view,
      result_parse_eq_invalidInput_iff target view⟩, fun _ _ => StopsAt.mem, ?_,
    isSome_read?_binary_iff, fun view byte => ?_⟩
  · rintro front ⟨literal, spelled⟩
    have encoded := toUTF8_ofList_of_ascii (Literal.ascii_of_spelled spelled)
    exact ⟨_, encoded, fun read? isInfinite => read?_ofString read? isInfinite encoded⟩
  · exact ⟨result_parse_binary_eq_nonNumeric_iff .single view byte,
      result_parse_binary_eq_nonNumeric_iff .double view byte⟩

/-- A literal of which a target for integers makes nothing: the text is refused for the
sign, which a string of the same three characters begins with. -/
theorem fraction_refused_by_integers :
    let text : Bytes := [0x20, 0x2b, 0x2e, 0x35, 0x78]
    let front : Bytes := [0x2b, 0x2e, 0x35]
    StopsAt text 0x2b ∧ 0x2b ∈ text ∧ LongestLiteral (dropSpace text) front ∧
      (parse (.whole 1000) (some text)).result = .error (.nonNumeric 0x2b) ∧
      ∃ string : String, string.toUTF8 = front.toByteArray ∧
        ∀ (read? : String → Option Int64) isInfinite,
          (Target.ofString read? isInfinite).read? front = read? string := by
  have stops : StopsAt ([0x20] ++ 0x2b :: [0x2e, 0x35, 0x78]) 0x2b :=
    .solid (List.forall_mem_singleton.mpr rfl) rfl
  have scanned : LiteralPrefix.find? [0x20, 0x2b, 0x2e, 0x35, 0x78] =
      some ⟨[0x2b, 0x2e, 0x35], true⟩ := by
    decide
  obtain ⟨longest, -⟩ := LiteralPrefix.longest_of_find? scanned
  obtain ⟨answers, mem, strings, -⟩ := parses_as_classified (α := Int64)
  exact ⟨stops, mem _ _ stops, longest,
    ((answers (.whole 1000) _).1 _).mpr (.refused stops longest rfl),
    strings _ longest.isLiteral⟩

end NumericFields.Floating
