import Mathlib.Tactic
import NumericFields.Text.Escape

/-!
# Escaped text between quotes

Escaped bytes are read back one by one, so an escaped text determines its bytes.  A
reader is outside of the escapes, right behind the backslash that opens one, or at the
hexadecimal digits of one.  Each escaped byte takes the reader from outside to outside
and shows a quote only behind an opening backslash, so bytes of any kind can stand
between quotes, and the quote that closes them is the first one that is bare.
-/

namespace NumericFields.Escape

/-! ## Reading back -/

theorem encode_injective : Function.Injective encode := by
  intro first second same
  have read := congrArg decode same
  rw [decode_encode, decode_encode] at read
  exact Option.some.inj read

theorem encode_cons (byte : UInt8) (bytes : Bytes) :
    encode (byte :: bytes) = encodeByte byte ++ encode bytes :=
  List.flatMap_cons

theorem encodeByte_append_inj {first second : UInt8} {front back : List Char}
    (same : encodeByte first ++ front = encodeByte second ++ back) :
    first = second ∧ front = back := by
  have read := congrArg decodeByte? same
  rw [decodeByte?_encodeByte, decodeByte?_encodeByte] at read
  exact Prod.mk.inj (Option.some.inj read)

def Plain (byte : UInt8) : Prop := letter? byte = none ∧ isPrintable byte = true

instance (byte : UInt8) : Decidable (Plain byte) := inferInstanceAs (Decidable (_ ∧ _))

theorem encode_plain {bytes : Bytes} (plain : ∀ byte ∈ bytes, Plain byte) :
    encode bytes = bytes.map Char.ofUInt8 := by
  induction bytes with
  | nil => rfl
  | cons byte rest ih =>
      obtain ⟨noLetter, printable⟩ := plain byte List.mem_cons_self
      rw [encode_cons, ih fun other mem => plain other (List.mem_cons_of_mem _ mem),
        encodeByte, noLetter]
      simp only [if_pos printable, List.map_cons, List.singleton_append]

theorem plain_byte (digit : Digit) : Plain digit.byte := by
  revert digit
  decide

/-! ## Readers of escaped text -/

def doubleQuote : Char := Char.ofNat 0x22

def quotes : List Char := [doubleQuote, Char.ofNat 0x27]

/-- How far a reader has come into an escape. -/
inductive Phase where
  | outside
  | opened
  | high
  | low
  deriving DecidableEq, Repr

namespace Phase

def step : Phase → Char → Phase
  | .outside, char => if char = backslash then .opened else .outside
  | .opened, char => if char = 'x' then .high else .outside
  | .high, _ => .low
  | .low, _ => .outside

def after (phase : Phase) (text : List Char) : Phase := text.foldl step phase

theorem step_outside {char : Char} (plain : char ≠ backslash) :
    outside.step char = .outside :=
  if_neg plain

theorem step_backslash : outside.step backslash = .opened := rfl

theorem step_opened {letter : Char} (notHex : letter ≠ 'x') :
    opened.step letter = .outside :=
  if_neg notHex

end Phase

/-! ## Guarded quotes -/

/-- For a reader in the given phase, the text ends outside of the escapes, and the
character `quote` occurs in it only as the second one of an escape. -/
structure Guards (quote : Char) (phase : Phase) (text : List Char) : Prop where
  whole : phase.after text = .outside
  escaped : ∀ front back, text = front ++ quote :: back → phase.after front = .opened

section Guards

variable {quote : Char} {phase : Phase}

theorem guards_nil (quote : Char) : Guards quote .outside [] where
  whole := rfl
  escaped front back split := by simp at split

theorem guards_cons_iff {char : Char} {rest : List Char} :
    Guards quote phase (char :: rest) ↔
      (char = quote → phase = .opened) ∧ Guards quote (phase.step char) rest := by
  constructor
  · intro guards
    refine ⟨fun same => guards.escaped [] rest (by rw [same]; rfl), guards.whole, ?_⟩
    rintro front back rfl
    exact guards.escaped (char :: front) back rfl
  · rintro ⟨first, guards⟩
    refine ⟨guards.whole, fun front back split => ?_⟩
    cases front with
    | nil => exact first (List.cons.inj split).1
    | cons char' front =>
        obtain ⟨rfl, rest⟩ := List.cons.inj split
        exact guards.escaped front back rest

theorem Guards.append {front back : List Char} (hfront : Guards quote phase front)
    (hback : Guards quote .outside back) : Guards quote phase (front ++ back) := by
  induction front generalizing phase with
  | nil =>
      obtain rfl : phase = .outside := hfront.whole
      exact hback
  | cons char front ih =>
      rw [guards_cons_iff] at hfront
      rw [List.cons_append, guards_cons_iff]
      exact ⟨hfront.1, ih hfront.2⟩

theorem guards_of_absent {text : List Char} (plain : backslash ∉ text)
    (absent : quote ∉ text) : Guards quote .outside text := by
  induction text with
  | nil => exact guards_nil quote
  | cons char rest ih =>
      rw [List.mem_cons, not_or] at plain absent
      rw [guards_cons_iff, Phase.step_outside (Ne.symm plain.1)]
      exact ⟨fun same => absurd same.symm absent.1, ih plain.2 absent.2⟩

end Guards

structure SplitsAt (quote : Char) (text front back : List Char) : Prop where
  split : text = front ++ quote :: back
  bare : Phase.outside.after front ≠ .opened
  first : ∀ front' back', text = front' ++ quote :: back' →
    Phase.outside.after front' ≠ .opened → front.length ≤ front'.length

theorem Guards.splitsAt {quote : Char} {front : List Char}
    (guards : Guards quote .outside front) (back : List Char) :
    SplitsAt quote (front ++ quote :: back) front back where
  split := rfl
  bare := by
    rw [guards.whole]
    decide
  first front' back' split bare := by
    by_contra shorter
    have early : front' ++ [quote] <+: front ++ quote :: back := ⟨back', by simp [split]⟩
    have count : (front' ++ [quote]).length ≤ front.length := by
      rw [List.length_append, List.length_singleton]
      omega
    -- a quote further to the front is one that is guarded
    obtain ⟨tail, rfl⟩ :=
      List.prefix_of_prefix_length_le early (List.prefix_append ..) count
    exact bare (guards.escaped front' tail (by simp))

/-! ## Escaped bytes -/

inductive Form : UInt8 → List Char → Prop
  | letter {byte : UInt8} {letter : Char} (read : letter? byte = some letter) :
      Form byte [backslash, letter]
  | plain {byte : UInt8} (plain : Plain byte) : Form byte [Char.ofUInt8 byte]
  | hexadecimal (byte : UInt8) (high low : Fin 16) :
      Form byte [backslash, 'x', hexDigit high, hexDigit low]

theorem form_encodeByte (byte : UInt8) : Form byte (encodeByte byte) := by
  unfold encodeByte
  split
  · next letter read => exact .letter read
  · next unread =>
      split
      · next printable => exact .plain ⟨unread, printable⟩
      · have bound := byte.toNat_lt
        exact .hexadecimal byte ⟨byte.toNat / 16, by omega⟩ ⟨byte.toNat % 16, by omega⟩

structure Quotable (text : List Char) : Prop where
  printable : ∀ char ∈ text, 0x20 ≤ char.toNat ∧ char.toNat ≤ 0x7e
  guards : ∀ quote ∈ quotes, Guards quote .outside text

theorem quotable_nil : Quotable [] where
  printable := by simp
  guards quote _ := guards_nil quote

theorem Quotable.append {front back : List Char} (hfront : Quotable front)
    (hback : Quotable back) : Quotable (front ++ back) where
  printable char mem := by
    rcases List.mem_append.mp mem with mem | mem
    · exact hfront.printable char mem
    · exact hback.printable char mem
  guards quote mem := (hfront.guards quote mem).append (hback.guards quote mem)

theorem ne_of_mem_quotes {quote : Char} (mem : quote ∈ quotes) :
    backslash ≠ quote ∧ 'x' ≠ quote ∧ ∀ value : Fin 16, hexDigit value ≠ quote := by
  rcases List.mem_pair.mp mem with rfl | rfl
  · decide
  · decide

theorem ofUInt8_ne_of_mem_quotes {byte : UInt8} (unread : letter? byte = none)
    {quote : Char} (mem : quote ∈ quotes) : Char.ofUInt8 byte ≠ quote := by
  have escaped : letter? (UInt8.ofNat quote.toNat) ≠ none := by
    rcases List.mem_pair.mp mem with rfl | rfl
    · decide
    · decide
  rintro rfl
  rw [toNat_ofUInt8, UInt8.ofNat_toNat] at escaped
  exact escaped unread

theorem printable_letter {byte : UInt8} {letter : Char}
    (read : letter? byte = some letter) :
    0x20 ≤ letter.toNat ∧ letter.toNat ≤ 0x7e := by
  have readBack := (byteOfLetter?_of_letter? read).2
  obtain ⟨entry, found, -⟩ := Option.map_eq_some_iff.mp readBack
  have printable : ∀ entry ∈ letters, 0x20 ≤ entry.2.toNat ∧ entry.2.toNat ≤ 0x7e := by
    decide
  have same := List.find?_some found
  rw [← eq_of_beq same]
  exact printable entry (List.mem_of_find?_eq_some found)

theorem printable_hexDigit (value : Fin 16) :
    0x20 ≤ (hexDigit value).toNat ∧ (hexDigit value).toNat ≤ 0x7e := by
  revert value
  decide

theorem Form.printable {byte : UInt8} {text : List Char} (form : Form byte text) :
    ∀ char ∈ text, 0x20 ≤ char.toNat ∧ char.toNat ≤ 0x7e := by
  have opening : 0x20 ≤ backslash.toNat ∧ backslash.toNat ≤ 0x7e := by decide
  cases form with
  | letter read => simpa [opening] using printable_letter read
  | plain plain =>
      have bounds := plain.2
      simp only [isPrintable, Bool.and_eq_true, decide_eq_true_eq,
        UInt8.le_iff_toNat_le] at bounds
      simpa using bounds
  | hexadecimal high low =>
      simpa [opening] using And.intro (printable_hexDigit high) (printable_hexDigit low)

theorem Form.guards {byte : UInt8} {text : List Char} (form : Form byte text)
    {quote : Char} (mem : quote ∈ quotes) : Guards quote .outside text := by
  obtain ⟨notBackslash, notX, notHex⟩ := ne_of_mem_quotes mem
  cases form with
  | letter read =>
      have closes := Phase.step_opened (byteOfLetter?_of_letter? read).1
      simp [guards_cons_iff, notBackslash, Phase.step_backslash, closes, guards_nil]
  | plain plain =>
      simp [guards_cons_iff, ofUInt8_ne_of_mem_quotes plain.1 mem,
        Phase.step_outside (ofUInt8_ne_backslash plain.1), guards_nil]
  | hexadecimal high low =>
      simp [guards_cons_iff, notBackslash, notX, notHex, Phase.step, guards_nil]

theorem quotable_encode (bytes : Bytes) : Quotable (encode bytes) := by
  induction bytes with
  | nil => exact quotable_nil
  | cons byte rest ih =>
      have form := form_encodeByte byte
      rw [encode_cons]
      exact Quotable.append ⟨form.printable, fun _ mem => form.guards mem⟩ ih

/-! ## The length of escaped text -/

theorem Form.length_le {byte : UInt8} {text : List Char} (form : Form byte text) :
    text.length ≤ 4 := by
  cases form <;> simp

theorem length_encode_le (bytes : Bytes) : (encode bytes).length ≤ 4 * bytes.length := by
  induction bytes with
  | nil => exact Nat.le_refl 0
  | cons byte rest ih =>
      have first := (form_encodeByte byte).length_le
      rw [encode_cons, List.length_append, List.length_cons]
      omega

end NumericFields.Escape
