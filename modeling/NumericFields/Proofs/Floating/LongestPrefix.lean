import NumericFields.Floating.Parse
import NumericFields.Proofs.Floating.Scanning

/-!
# The longest literal at the front of a text

The scanner stops at the end of a literal, and no literal at the front of the
text ends behind that point.  So what it finds is the longest prefix that is a
literal, and it finds nothing only where no prefix is one.
-/

namespace NumericFields.Floating

/-! ## Words -/

theorem Word.length_text_le (name : Word) : name.text.length ≤ 8 := by
  cases name <;> decide

namespace LiteralPrefix

theorem afterWord?_append {name : Word} {spelling : Bytes}
    (spelled : EitherCase name.text spelling) (rest : Bytes) :
    afterWord? (spelling ++ rest) name = some rest := by
  rw [afterWord?, ← spelled.length_eq, List.take_left, List.drop_left,
    if_pos (name.folds_iff.mpr spelled)]

theorem exists_spelling_of_afterWord? {name : Word} {text rest : Bytes}
    (scanned : afterWord? text name = some rest) :
    ∃ spelling, EitherCase name.text spelling ∧ text = spelling ++ rest := by
  unfold afterWord? at scanned
  split at scanned
  · next spelled =>
      obtain rfl := Option.some.inj scanned
      exact ⟨_, name.folds_iff.mp spelled, (List.take_append_drop _ _).symm⟩
  · contradiction

theorem length_of_afterWord? {name : Word} {text rest : Bytes}
    (scanned : afterWord? text name = some rest) :
    text.length = name.text.length + rest.length := by
  obtain ⟨spelling, spelled, rfl⟩ := exists_spelling_of_afterWord? scanned
  rw [← spelled.length_eq, List.length_append]

def afterAnyWord? (text : Bytes) : Option Bytes := Word.all.findSome? (afterWord? text)

theorem exists_word_of_afterAnyWord? {text rest : Bytes}
    (scanned : afterAnyWord? text = some rest) :
    ∃ name : Word, ∃ spelling, EitherCase name.text spelling ∧
      text = spelling ++ rest := by
  obtain ⟨name, -, scanned⟩ := List.exists_of_findSome?_eq_some scanned
  exact ⟨name, exists_spelling_of_afterWord? scanned⟩

/-- The longest word is tried first, so no word reaches further than the one
that is found. -/
theorem afterAnyWord?_append {name : Word} {spelling : Bytes}
    (spelled : EitherCase name.text spelling) (rest : Bytes) :
    ∃ left, afterAnyWord? (spelling ++ rest) = some left ∧
      left.length ≤ rest.length := by
  have scanned := afterWord?_append spelled rest
  have total := length_of_afterWord? scanned
  simp only [afterAnyWord?, Word.all, List.findSome?_cons]
  cases infinity : afterWord? (spelling ++ rest) .infinity with
  | some left =>
      have longest := length_of_afterWord? infinity
      have shorter := name.length_text_le
      refine ⟨left, rfl, ?_⟩
      rw [show Word.infinity.text.length = 8 from rfl] at longest
      omega
  | none =>
      cases inf : afterWord? (spelling ++ rest) .inf with
      | some left =>
          have found := length_of_afterWord? inf
          refine ⟨left, rfl, ?_⟩
          cases name with
          | infinity =>
              rw [infinity] at scanned
              contradiction
          | inf | nan =>
              simp only [Word.text, List.length_cons, List.length_nil] at total found
              omega
      | none =>
          cases name with
          | infinity =>
              rw [infinity] at scanned
              contradiction
          | inf =>
              rw [inf] at scanned
              contradiction
          | nan => exact ⟨rest, by rw [scanned], le_refl _⟩

theorem afterAnyWord?_numeral (parts : Numeral) (rest : Bytes) :
    afterAnyWord? (parts.text ++ rest) = none := by
  refine Option.eq_none_iff_forall_ne_some.mpr fun left scanned => ?_
  obtain ⟨name, spelling, spelled, split⟩ := exists_word_of_afterAnyWord? scanned
  obtain ⟨first, tail, text, begins⟩ := parts.exists_cons_of_text
  obtain ⟨letter, behind, rfl, initial⟩ := Word.exists_cons_of_spelled spelled
  rw [text, List.cons_append, List.cons_append] at split
  obtain rfl := (List.cons.inj split).1
  exact initial.not_beginsNumeral begins

/-! ## Literals -/

/-- The text behind the word or numeral at its front, and whether that denotes a
number. -/
def afterBody? (text : Bytes) : Option (Bytes × Bool) :=
  match afterAnyWord? text with
  | some rest => some (rest, false)
  | none => (afterNumeral? text).map fun rest => (rest, true)

theorem exists_body_of_afterBody? {text rest : Bytes} {isFinite : Bool}
    (scanned : afterBody? text = some (rest, isFinite)) (sign : Option Sign) :
    ∃ (body : Body) (spelling : Bytes), body.Spelled spelling ∧
      text = spelling ++ rest ∧ isFinite = Literal.isFinite ⟨sign, body⟩ := by
  rw [afterBody?] at scanned
  cases word : afterAnyWord? text with
  | some left =>
      rw [word] at scanned
      cases scanned
      obtain ⟨name, spelling, spelled, split⟩ := exists_word_of_afterAnyWord? word
      exact ⟨.word name, spelling, spelled, split, rfl⟩
  | none =>
      rw [word] at scanned
      obtain ⟨left, numeral, same⟩ := Option.map_eq_some_iff.mp scanned
      cases same
      obtain ⟨parts, split⟩ := exists_numeral_of_afterNumeral? numeral
      exact ⟨.numeral parts, parts.text, rfl, split, rfl⟩

theorem afterBody?_append {body : Body} {spelling : Bytes}
    (spelled : body.Spelled spelling) (sign : Option Sign) (rest : Bytes) :
    ∃ left, afterBody? (spelling ++ rest) = some (left, Literal.isFinite ⟨sign, body⟩) ∧
      left.length ≤ rest.length := by
  cases body with
  | word name =>
      obtain ⟨left, scanned, shorter⟩ := afterAnyWord?_append spelled rest
      refine ⟨left, ?_, shorter⟩
      rw [afterBody?, scanned]
      rfl
  | numeral parts =>
      obtain rfl := spelled
      obtain ⟨left, scanned, shorter⟩ := afterNumeral?_text_append parts rest
      refine ⟨left, ?_, shorter⟩
      rw [afterBody?, afterAnyWord?_numeral, scanned]
      rfl

def afterLiteral? (text : Bytes) : Option (Bytes × Bool) := afterBody? (dropSign text)

theorem exists_literal_of_afterLiteral? {text rest : Bytes} {isFinite : Bool}
    (scanned : afterLiteral? text = some (rest, isFinite)) :
    ∃ (literal : Literal) (spelling : Bytes), literal.Spelled spelling ∧
      text = spelling ++ rest ∧ isFinite = literal.isFinite := by
  obtain ⟨body, spelling, spelled, split, isFinite⟩ :=
    exists_body_of_afterBody? scanned (Sign.take text).1
  refine ⟨⟨(Sign.take text).1, body⟩, _, ⟨spelling, spelled, rfl⟩, ?_, isFinite⟩
  rw [List.append_assoc, ← split, dropSign, Sign.text_take]

/-- What follows a literal may extend it, but leaves it finite or not as it is. -/
theorem afterLiteral?_append {literal : Literal} {spelling : Bytes}
    (spelled : literal.Spelled spelling) (rest : Bytes) :
    ∃ left, afterLiteral? (spelling ++ rest) = some (left, literal.isFinite) ∧
      left.length ≤ rest.length := by
  obtain ⟨unsigned, body, rfl⟩ := spelled
  have absent := Body.absent_of_spelled body rest
  rw [afterLiteral?, dropSign, List.append_assoc, Sign.take_text_append _ absent]
  exact afterBody?_append body literal.sign rest

/-! ## The prefix found -/

theorem find?_eq (text : Bytes) :
    find? text = (afterLiteral? (dropSpace text)).map fun (rest, isFinite) =>
      ⟨(dropSpace text).take ((dropSpace text).length - rest.length), isFinite⟩ := by
  rw [find?, afterLiteral?, afterBody?, afterAnyWord?]
  cases Word.all.findSome? (afterWord? (dropSign (dropSpace text))) with
  | some rest => rfl
  | none => cases afterNumeral? (dropSign (dropSpace text)) <;> rfl

end LiteralPrefix

def IsLiteral (text : Bytes) : Prop := ∃ literal : Literal, literal.Spelled text

structure LongestLiteral (text front : Bytes) : Prop where
  isPrefix : front <+: text
  isLiteral : IsLiteral front
  longest : ∀ other, other <+: text → IsLiteral other → other.length ≤ front.length

theorem LongestLiteral.unique {text first second : Bytes}
    (hfirst : LongestLiteral text first) (hsecond : LongestLiteral text second) :
    first = second := by
  have same : first.length = second.length :=
    le_antisymm (hsecond.longest _ hfirst.isPrefix hfirst.isLiteral)
      (hfirst.longest _ hsecond.isPrefix hsecond.isLiteral)
  exact (List.prefix_of_prefix_length_le hfirst.isPrefix hsecond.isPrefix
    same.le).eq_of_length same

namespace LiteralPrefix

theorem longest_of_afterLiteral? {text rest : Bytes} {isFinite : Bool}
    (scanned : afterLiteral? text = some (rest, isFinite)) :
    ∃ front, text = front ++ rest ∧ LongestLiteral text front ∧
      ∃ literal : Literal, literal.Spelled front ∧ isFinite = literal.isFinite := by
  obtain ⟨literal, front, spelled, split, finite⟩ :=
    exists_literal_of_afterLiteral? scanned
  refine ⟨front, split, ⟨⟨rest, split.symm⟩, ⟨literal, spelled⟩, ?_⟩,
    literal, spelled, finite⟩
  rintro other ⟨behind, total⟩ ⟨longer, hlonger⟩
  obtain ⟨left, again, shorter⟩ := afterLiteral?_append hlonger behind
  rw [total, scanned] at again
  cases again
  have lengths := congrArg List.length (total.trans split)
  rw [List.length_append, List.length_append] at lengths
  omega

theorem afterLiteral?_eq_none_iff (text : Bytes) :
    afterLiteral? text = none ↔ ∀ front, front <+: text → ¬IsLiteral front := by
  constructor
  · rintro scanned front ⟨rest, rfl⟩ ⟨literal, spelled⟩
    obtain ⟨left, found, -⟩ := afterLiteral?_append spelled rest
    rw [scanned] at found
    contradiction
  · intro noLiteral
    refine Option.eq_none_iff_forall_ne_some.mpr fun ⟨rest, isFinite⟩ scanned => ?_
    obtain ⟨front, -, longest, -⟩ := longest_of_afterLiteral? scanned
    exact noLiteral front longest.isPrefix longest.isLiteral

theorem find?_of_afterLiteral? {text rest : Bytes} {isFinite : Bool}
    (scanned : afterLiteral? (dropSpace text) = some (rest, isFinite)) :
    ∃ front, find? text = some ⟨front, isFinite⟩ ∧ dropSpace text = front ++ rest := by
  obtain ⟨front, split, -⟩ := longest_of_afterLiteral? scanned
  refine ⟨front, ?_, split⟩
  rw [find?_eq, scanned, split]
  simp

theorem find?_eq_none_iff (text : Bytes) :
    find? text = none ↔ ∀ front, front <+: dropSpace text → ¬IsLiteral front := by
  rw [find?_eq, Option.map_eq_none_iff, afterLiteral?_eq_none_iff]

theorem longest_of_find? {text : Bytes} {found : LiteralPrefix}
    (scanned : find? text = some found) :
    LongestLiteral (dropSpace text) found.text ∧
      ∃ literal : Literal, literal.Spelled found.text ∧
        found.isFinite = literal.isFinite := by
  rw [find?_eq] at scanned
  obtain ⟨⟨rest, isFinite⟩, behind, rfl⟩ := Option.map_eq_some_iff.mp scanned
  obtain ⟨front, split, longest⟩ := longest_of_afterLiteral? behind
  simpa [split] using longest

theorem find?_eq_some_iff (text : Bytes) (found : LiteralPrefix) :
    find? text = some found ↔
      LongestLiteral (dropSpace text) found.text ∧
        ∃ literal : Literal, literal.Spelled found.text ∧
          found.isFinite = literal.isFinite := by
  constructor
  · exact longest_of_find?
  · rintro ⟨longest, literal, spelled, finite⟩
    cases scanned : find? text with
    | none =>
        rw [find?_eq_none_iff] at scanned
        exact absurd longest.isLiteral (scanned _ longest.isPrefix)
    | some other =>
        obtain ⟨hlongest, hliteral, hspelled, hfinite⟩ := longest_of_find? scanned
        have same := hlongest.unique longest
        rw [same] at hspelled
        rw [Literal.eq_of_spelled hspelled spelled, ← finite] at hfinite
        rcases other with ⟨otherText, otherFinite⟩
        rcases found with ⟨foundText, foundFinite⟩
        cases same
        cases hfinite
        rfl

end LiteralPrefix

/-! ## What a reader sees -/

theorem result_parse_eq_read {α : Type u} (target : Target α) {text : Bytes}
    (nonempty : text ≠ []) : (parse target (some text)).result = read target text :=
  Outcome.result_reading_some nonempty (read target)

theorem result_parse_verbatim_eq_ok_iff (text front : Bytes) :
    (parse (.verbatim false) (some text)).result = .ok front ↔
      ∃ found, LiteralPrefix.find? text = some found ∧ found.text = front := by
  cases text with
  | nil =>
      have none : LiteralPrefix.find? [] = none := rfl
      rw [none]
      simp [parse, Outcome.reading]
  | cons first rest =>
      rw [result_parse_eq_read _ (by simp), read]
      cases LiteralPrefix.find? (first :: rest) with
      | none => simp
      | some found => simp [Target.verbatim]

theorem isSpace_iff (byte : UInt8) :
    isSpace byte = true ↔ byte = 0x20 ∨ (0x09 ≤ byte ∧ byte ≤ 0x0d) := by
  simp [isSpace]

theorem dropSpace_split (text : Bytes) :
    ∃ space, text = space ++ dropSpace text ∧ (∀ byte ∈ space, isSpace byte = true) ∧
      ∀ first ∈ (dropSpace text).head?, isSpace first = false := by
  refine ⟨text.takeWhile isSpace, List.takeWhile_append_dropWhile.symm, ?_, ?_⟩
  · intro byte mem
    exact List.all_eq_true.mp (List.all_takeWhile ..) byte mem
  · intro first head
    have stops := List.head?_dropWhile_not isSpace text
    rw [show (text.dropWhile isSpace).head? = some first from head] at stops
    exact stops

/-! ## A text that is a literal -/

theorem isSpace_byte (digit : Digit) : isSpace digit.byte = false := by
  revert digit
  decide

theorem BeginsNumeral.isSpace {byte : UInt8} (begins : BeginsNumeral byte) :
    isSpace byte = false := by
  rcases begins with digit | rfl
  · obtain ⟨digit, read⟩ := Option.isSome_iff_exists.mp digit
    rw [Digit.eq_byte_of_ofByte? read, isSpace_byte]
  · decide

theorem Word.Begins.isSpace {name : Word} {byte : UInt8} (begins : name.Begins byte) :
    isSpace byte = false := by
  rcases begins with rfl | rfl <;> cases name <;> decide

theorem Literal.isSpace_of_spelled {literal : Literal} {text : Bytes}
    (spelled : literal.Spelled text) : ∀ first ∈ text.head?, isSpace first = false := by
  obtain ⟨unsigned, body, rfl⟩ := spelled
  rcases literal with ⟨_ | sign, name | parts⟩
  · obtain ⟨first, rest, rfl, letter⟩ := Word.exists_cons_of_spelled body
    simpa using letter.isSpace
  · obtain rfl := body
    obtain ⟨first, rest, text, begins⟩ := parts.exists_cons_of_text
    simpa [text] using begins.isSpace
  all_goals cases sign <;> simp [isSpace, Sign.byte]

theorem Literal.dropSpace_of_spelled {literal : Literal} {text : Bytes}
    (spelled : literal.Spelled text) : dropSpace text = text := by
  have first := isSpace_of_spelled spelled
  cases text with
  | nil => rfl
  | cons byte rest => simp [dropSpace, first byte rfl]

theorem LiteralPrefix.find?_of_spelled {literal : Literal} {text : Bytes}
    (spelled : literal.Spelled text) : find? text = some ⟨text, literal.isFinite⟩ := by
  rw [find?_eq_some_iff, Literal.dropSpace_of_spelled spelled]
  exact ⟨⟨List.prefix_rfl, ⟨literal, spelled⟩, fun _ front _ => front.length_le⟩,
    literal, spelled, rfl⟩

/-- Behind the white space at its front, the scanner finds in a text the longest
prefix that is a literal, marked as finite unless it is a word, and finds
nothing exactly if no prefix is a literal.  What it takes off is all that stands
before the rest that it scanned up to, and is what a target is handed. -/
theorem finds_longest_literal (text : Bytes) :
    (∃ space, text = space ++ dropSpace text ∧
      (∀ byte ∈ space, byte = 0x20 ∨ (0x09 ≤ byte ∧ byte ≤ 0x0d)) ∧
      ∀ first ∈ (dropSpace text).head?,
        ¬(first = 0x20 ∨ (0x09 ≤ first ∧ first ≤ 0x0d))) ∧
    (∀ found, LiteralPrefix.find? text = some found ↔
      LongestLiteral (dropSpace text) found.text ∧
        ∃ literal : Literal, literal.Spelled found.text ∧
          found.isFinite = literal.isFinite) ∧
    (LiteralPrefix.find? text = none ↔
      ∀ front, front <+: dropSpace text → ¬IsLiteral front) ∧
    (∀ rest isFinite,
      LiteralPrefix.afterLiteral? (dropSpace text) = some (rest, isFinite) →
        ∃ front, LiteralPrefix.find? text = some ⟨front, isFinite⟩ ∧
          dropSpace text = front ++ rest) ∧
    ∀ front, (parse (.verbatim false) (some text)).result = .ok front ↔
      LongestLiteral (dropSpace text) front := by
  refine ⟨?_, LiteralPrefix.find?_eq_some_iff text, LiteralPrefix.find?_eq_none_iff text,
    fun _ _ => LiteralPrefix.find?_of_afterLiteral?, fun front => ?_⟩
  · simpa only [← isSpace_iff, Bool.not_eq_true] using dropSpace_split text
  · rw [result_parse_verbatim_eq_ok_iff]
    constructor
    · rintro ⟨found, scanned, rfl⟩
      exact (LiteralPrefix.longest_of_find? scanned).1
    · intro longest
      obtain ⟨literal, spelled⟩ := longest.isLiteral
      refine ⟨⟨front, literal.isFinite⟩, ?_, rfl⟩
      exact (LiteralPrefix.find?_eq_some_iff _ _).mpr ⟨longest, literal, spelled, rfl⟩

/-- The texts `\t-iNFinitYy`, `NaN1` and `+1.5E-7e`, each with one byte more than a literal. -/
theorem finds_words_in_either_case :
    let infinity : Bytes := [0x2d, 0x69, 0x4e, 0x46, 0x69, 0x6e, 0x69, 0x74, 0x59]
    let nan : Bytes := [0x4e, 0x61, 0x4e]
    let numeral : Bytes := [0x2b, 0x31, 0x2e, 0x35, 0x45, 0x2d, 0x37]
    (LiteralPrefix.find? (0x09 :: infinity ++ [0x79]) = some ⟨infinity, false⟩ ∧
      LongestLiteral (infinity ++ [0x79]) infinity) ∧
    (LiteralPrefix.find? (nan ++ [0x31]) = some ⟨nan, false⟩ ∧
      LongestLiteral (nan ++ [0x31]) nan) ∧
    LiteralPrefix.find? (numeral ++ [0x65]) = some ⟨numeral, true⟩ ∧
      LongestLiteral (numeral ++ [0x65]) numeral := by
  intro infinity nan numeral
  have longest {text : Bytes} {found : LiteralPrefix}
      (scanned : LiteralPrefix.find? text = some found) :
      LongestLiteral (dropSpace text) found.text :=
    (((finds_longest_literal text).2.1 found).mp scanned).1
  have word : LiteralPrefix.find? (0x09 :: infinity ++ [0x79]) = some ⟨infinity, false⟩ := by
    decide
  have word' : LiteralPrefix.find? (nan ++ [0x31]) = some ⟨nan, false⟩ := by decide
  have number : LiteralPrefix.find? (numeral ++ [0x65]) = some ⟨numeral, true⟩ := by decide
  exact ⟨⟨word, longest word⟩, ⟨word', longest word'⟩, number, longest number⟩

end NumericFields.Floating
