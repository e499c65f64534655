import Mathlib.Tactic
import NumericFields.Wire.Field

/-!
# Fields as residues

A field of `length` bytes holds a number modulo `256 ^ length`.  Writing a number and
reading it back leaves its residue, whatever follows the field, and bytes that are read
and written again at their own length are unchanged, so a field and the front of a view
that it was read from determine each other.  Two fields are the same, and print the
same, exactly if they have one width and hold one residue.
-/

namespace NumericFields

namespace BigEndian

theorem two_pow_bits (length : Nat) : 2 ^ (8 * length) = 256 ^ length := by
  rw [pow_mul]
  norm_num

theorem decode_encode (length number : Nat) :
    decode (encode length number) = number % 256 ^ length := by
  induction length generalizing number with
  | zero => simp [encode, Nat.mod_one]
  | succ length ih =>
      rw [encode, decode_concat, ih, UInt8.toNat_ofNat', pow_succ' 256, Nat.mod_mul]
      omega

theorem decode_lt (bytes : Bytes) : decode bytes < 256 ^ bytes.length := by
  have low := decode_encode bytes.length (decode bytes)
  rw [encode_decode] at low
  rw [low]
  exact Nat.mod_lt _ (by positivity)

end BigEndian

namespace Wire

theorem Width.byteCount_le (width : Width) : width.byteCount ≤ 4 := by
  cases width <;> decide

namespace Field

@[simp] theorem length_ofValue (width : Width) (value : UInt32) :
    (ofValue width value).bytes.length = width.byteCount :=
  BigEndian.length_encode ..

theorem decode_ofValue (width : Width) (value : UInt32) :
    BigEndian.decode (ofValue width value).bytes =
      value.toNat % 2 ^ (8 * width.byteCount) := by
  rw [ofValue, BigEndian.decode_encode, BigEndian.two_pow_bits]

end Field

section Front

variable {width : Width} {front : Bytes}

theorem toNat_decode (length : front.length = width.byteCount) :
    (UInt32.ofNat (BigEndian.decode front)).toNat = BigEndian.decode front := by
  apply UInt32.toNat_ofNat_of_lt'
  calc BigEndian.decode front
    _ < 256 ^ front.length := BigEndian.decode_lt front
    _ ≤ 256 ^ 4 := Nat.pow_le_pow_right (by decide) (length ▸ width.byteCount_le)
    _ = UInt32.size := rfl

theorem bytes_ofValue_decode (length : front.length = width.byteCount) :
    (Field.ofValue width (UInt32.ofNat (BigEndian.decode front))).bytes = front := by
  rw [Field.ofValue, toNat_decode length, ← length, BigEndian.encode_decode]

theorem decode_append (length : front.length = width.byteCount) (back : Bytes) :
    decode width (some (front ++ back)) =
      .success (UInt32.ofNat (BigEndian.decode front)) := by
  rw [decode, if_pos (by simp [length]), List.take_left' length]

end Front

theorem decode_short {width : Width} {bytes : Bytes}
    (short : bytes.length < width.byteCount) :
    decode width (some bytes) = .reject .invalidInput (some bytes) := by
  rw [decode, if_neg (by omega)]

theorem result_decode_cases (width : Width) (view : View) :
    (∃ value, (decode width view).result = .ok value) ∨
      (decode width view).result = .error .invalidInput := by
  cases view with
  | none => exact .inr rfl
  | some bytes =>
      rw [decode]
      split
      · exact .inl ⟨_, rfl⟩
      · exact .inr rfl

theorem encode_eq (memory : Allocator) (width : Width) (value : UInt32) :
    encode memory width value =
      if memory width.byteCount then .success (Field.ofValue width value)
      else .reject .allocation (some (Field.ofValue width value).bytes) := by
  rw [encode, Field.store, Field.length_ofValue]

end Wire

/-! ## Equal fields -/

namespace BigEndian

theorem eq_of_decode_eq {first second : Bytes} (length : first.length = second.length)
    (same : decode first = decode second) : first = second := by
  rw [← encode_decode first, ← encode_decode second, length, same]

end BigEndian

namespace Wire

theorem Width.byteCount_injective : Function.Injective Width.byteCount := by
  intro first second same
  cases first <;> cases second <;> first | rfl | contradiction

/-! ## The text of a field -/

namespace Field

theorem capitalDigit_injective :
    ∀ first second : Fin 16,
      (hexDigit first).toUpper = (hexDigit second).toUpper → first = second := by
  decide

theorem byteText_injective : Function.Injective byteText := by
  intro first second same
  have quotient (byte : UInt8) : byte.toNat / 16 < 16 := by
    have := byte.toNat_lt
    omega
  have remainder (byte : UInt8) : byte.toNat % 16 < 16 := Nat.mod_lt _ (by decide)
  obtain ⟨high, low⟩ : _ ∧ _ := by simpa [byteText] using same
  have highs := capitalDigit_injective ⟨_, quotient first⟩ ⟨_, quotient second⟩ high
  have lows := capitalDigit_injective ⟨_, remainder first⟩ ⟨_, remainder second⟩ low
  rw [Fin.mk.injEq] at highs lows
  apply UInt8.toNat_inj.mp
  omega

def spacedText (bytes : Bytes) : List Char :=
  bytes.flatMap fun byte => ' ' :: byteText byte

theorem spacedText_injective : Function.Injective spacedText := by
  intro first second same
  induction first generalizing second with
  | nil =>
      cases second with
      | nil => rfl
      | cons byte rest => simp [spacedText] at same
  | cons byte rest ih =>
      cases second with
      | nil => simp [spacedText] at same
      | cons other rest' =>
          rw [spacedText, spacedText, List.flatMap_cons, List.flatMap_cons] at same
          obtain ⟨head, tail⟩ := List.append_inj same rfl
          rw [byteText_injective (List.cons.inj head).2, ih tail]

theorem space_cons_intercalate (byte : UInt8) (rest : Bytes) :
    ' ' :: [' '].intercalate ((byte :: rest).map byteText) =
      spacedText (byte :: rest) := by
  induction rest generalizing byte with
  | nil => simp [spacedText]
  | cons next rest ih =>
      rw [List.map_cons, List.map_cons, List.intercalate_cons_cons, spacedText,
        List.flatMap_cons, ← spacedText, ← ih]
      simp

theorem intercalate_cons_ne_nil (byte : UInt8) (rest : Bytes) :
    [' '].intercalate ((byte :: rest).map byteText) ≠ [] := by
  intro empty
  have shown := space_cons_intercalate byte rest
  rw [empty] at shown
  simp [spacedText, byteText] at shown

theorem text_injective : Function.Injective text := by
  rintro ⟨first⟩ ⟨second⟩ same
  have digits : [' '].intercalate (first.map byteText) =
      [' '].intercalate (second.map byteText) := by
    simpa [text, ← String.toList_inj] using same
  cases first with
  | nil =>
      cases second with
      | nil => rfl
      | cons byte rest => exact absurd digits.symm (intercalate_cons_ne_nil byte rest)
  | cons byte rest =>
      cases second with
      | nil => exact absurd digits (intercalate_cons_ne_nil byte rest)
      | cons other rest' =>
          -- With a space in front of the first byte too, all bytes are shown alike.
          have spaced := congrArg (' ' :: ·) digits
          simp only [space_cons_intercalate] at spaced
          rw [spacedText_injective spaced]

/-! ## The number in a field -/

theorem ofValue_eq_iff {first second : Width} {value other : UInt32} :
    ofValue first value = ofValue second other ↔
      first = second ∧ value.toNat ≡ other.toNat [MOD 2 ^ (8 * first.byteCount)] := by
  constructor
  · intro same
    have length := congrArg (fun field => field.bytes.length) same
    simp only [length_ofValue] at length
    obtain rfl := Width.byteCount_injective length
    refine ⟨rfl, ?_⟩
    rw [Nat.ModEq, ← decode_ofValue, ← decode_ofValue, same]
  · rintro ⟨rfl, residue⟩
    have length := (length_ofValue first value).trans (length_ofValue first other).symm
    rw [Nat.ModEq, ← decode_ofValue, ← decode_ofValue] at residue
    exact congrArg Field.mk (BigEndian.eq_of_decode_eq length residue)

end Field

theorem result_encode_eq_ok_iff {memory : Allocator} {width : Width} {value : UInt32}
    {field : Field} :
    (encode memory width value).result = .ok field ↔
      memory width.byteCount = true ∧ field = Field.ofValue width value := by
  rw [encode_eq]
  split
  · next granted => simp [granted, eq_comm]
  · next refused => simp [refused]

theorem result_decode_eq_error_iff (width : Width) (view : View) (failure : Failure) :
    (decode width view).result = .error failure ↔
      failure = .invalidInput ∧
        (view = none ∨ ∃ bytes, view = some bytes ∧ bytes.length < width.byteCount) := by
  cases view with
  | none => simp [decode, eq_comm]
  | some bytes =>
      rw [decode]
      split
      · next whole => simp [whole]
      · next short => simp [Nat.lt_of_not_le short, eq_comm]

section Whole

variable {width : Width} {bytes : Bytes}

theorem exists_decode_of_le (whole : width.byteCount ≤ bytes.length) :
    ∃ number, (decode width (some bytes)).result = .ok number ∧
      number.toNat < 2 ^ (8 * width.byteCount) ∧
      Field.ofValue width number = ⟨bytes.take width.byteCount⟩ := by
  have length : (bytes.take width.byteCount).length = width.byteCount := by
    rw [List.length_take, Nat.min_eq_left whole]
  have read := decode_append length (bytes.drop width.byteCount)
  rw [List.take_append_drop] at read
  refine ⟨_, by rw [read]; rfl, ?_, congrArg Field.mk (bytes_ofValue_decode length)⟩
  calc (UInt32.ofNat (BigEndian.decode (bytes.take width.byteCount))).toNat
    _ = BigEndian.decode (bytes.take width.byteCount) := toNat_decode length
    _ < 256 ^ (bytes.take width.byteCount).length := BigEndian.decode_lt _
    _ = 2 ^ (8 * width.byteCount) := by rw [length, BigEndian.two_pow_bits]

end Whole

/-- A stored field is read back as the residue of its value, whatever follows it.  A
view is read unless it is null or too short, and what is read is stored as the bytes in
front of the view.  Fields are the same, and are shown the same, exactly if they have
one width and one residue. -/
theorem fields_hold_residues :
    (∀ (memory : Allocator) (width : Width) (value : UInt32),
      memory width.byteCount = true →
        ∃ field, (encode memory width value).result = .ok field ∧
          field.bytes.length = width.byteCount ∧
          ∀ back, (decode width (some (field.bytes ++ back))).result.map UInt32.toNat =
            .ok (value.toNat % 2 ^ (8 * width.byteCount))) ∧
    (∀ (width : Width) (view : View),
      (∀ failure, (decode width view).result = .error failure ↔
        failure = .invalidInput ∧
          (view = none ∨ ∃ bytes, view = some bytes ∧ bytes.length < width.byteCount)) ∧
      ∀ bytes, view = some bytes → width.byteCount ≤ bytes.length →
        ∃ number, (decode width view).result = .ok number ∧
          number.toNat < 2 ^ (8 * width.byteCount) ∧
          ∀ memory : Allocator, memory width.byteCount = true →
            (encode memory width number).result = .ok ⟨bytes.take width.byteCount⟩) ∧
    ∀ (memory memory' : Allocator) (width width' : Width) (value value' : UInt32)
        (field field' : Field),
      (encode memory width value).result = .ok field →
      (encode memory' width' value').result = .ok field' →
      let alike := width = width' ∧
        value.toNat ≡ value'.toNat [MOD 2 ^ (8 * width.byteCount)]
      (field = field' ↔ alike) ∧ (field.text = field'.text ↔ alike) := by
  refine ⟨fun memory width value granted => ?_, fun width view => ⟨?_, ?_⟩, ?_⟩
  · have length := Field.length_ofValue width value
    refine ⟨_, result_encode_eq_ok_iff.mpr ⟨granted, rfl⟩, length, fun back => ?_⟩
    rw [decode_append length, Outcome.result_success, Except.map, toNat_decode length,
      Field.decode_ofValue]
  · exact result_decode_eq_error_iff width view
  · rintro bytes rfl whole
    obtain ⟨number, read, small, written⟩ := exists_decode_of_le whole
    refine ⟨number, read, small, fun memory granted => ?_⟩
    exact result_encode_eq_ok_iff.mpr ⟨granted, written.symm⟩
  · intro memory memory' width width' value value' field field' stored stored'
    obtain ⟨-, rfl⟩ := result_encode_eq_ok_iff.mp stored
    obtain ⟨-, rfl⟩ := result_encode_eq_ok_iff.mp stored'
    exact ⟨Field.ofValue_eq_iff, Field.text_injective.eq_iff.trans Field.ofValue_eq_iff⟩

theorem field_drops_high_byte :
    let bytes : Bytes := [0xbb, 0xcc, 0xdd]
    (encode .granting .three 0xaabbccdd).result = .ok ⟨bytes⟩ ∧
      (decode .three (some (bytes ++ [0x01]))).result.map UInt32.toNat = .ok 0xbbccdd ∧
      (encode .granting .three 0x00bbccdd).result = .ok ⟨bytes⟩ ∧
      (∃ number, (decode .three (some (bytes ++ [0x01]))).result = .ok number ∧
        (encode .granting .three number).result = .ok ⟨bytes⟩) ∧
      (Field.mk bytes).text = (Field.ofValue .three 0x00bbccdd).text := by
  have stored : (encode .granting .three 0xaabbccdd).result =
      .ok ⟨[0xbb, 0xcc, 0xdd]⟩ := rfl
  have plain : (encode .granting .three 0x00bbccdd).result =
      .ok ⟨[0xbb, 0xcc, 0xdd]⟩ := rfl
  obtain ⟨written, viewed, compared⟩ := fields_hold_residues
  obtain ⟨field, same, -, reads⟩ := written .granting .three 0xaabbccdd rfl
  obtain rfl := Except.ok.inj (stored.symm.trans same)
  obtain ⟨number, read, -, again⟩ :=
    (viewed .three _).2 [0xbb, 0xcc, 0xdd, 0x01] rfl (by decide)
  exact ⟨stored, reads [0x01], plain, ⟨number, read, again .granting rfl⟩,
    (compared _ _ _ _ _ _ _ _ stored plain).2.mpr ⟨rfl, rfl⟩⟩

end Wire

end NumericFields
