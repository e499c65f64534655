import Mathlib.Data.List.DropRight
import NumericFields.Proofs.Records
import NumericFields.Proofs.Wire.Message
import NumericFields.Proofs.Wire.Field

/-!
# Narrow fields inside wide ones

The bytes of a number are those of a quotient and, behind them, those of the remainder.
So a number's narrower field is the end of its wider one, and reading a wide field at a
narrower width gives the quotient from its front and the remainder from its end.  Every
named reader or writer is the general one at its width, the one that joins two bytes on
its own included.
-/

namespace NumericFields

/-! ## Quotient and remainder -/

namespace BigEndian

theorem encode_add (high low number : Nat) :
    encode (high + low) number =
      encode high (number / 256 ^ low) ++ encode low number := by
  induction low generalizing number with
  | zero => simp [encode]
  | succ low ih =>
      rw [← Nat.add_assoc, encode, ih, encode, Nat.div_div_eq_div_mul, ← pow_succ',
        List.append_assoc]

theorem decode_append (front back : Bytes) :
    decode (front ++ back) = decode front * 256 ^ back.length + decode back := by
  induction back using List.reverseRecOn with
  | nil => simp
  | append_singleton back byte ih =>
      rw [← List.append_assoc, decode_concat, decode_concat, ih, List.length_append,
        List.length_singleton, pow_succ]
      ring

section Split

variable (bytes : Bytes) (count : Nat)

theorem decode_take_drop :
    decode bytes =
      256 ^ (bytes.length - count) * decode (bytes.take count) +
        decode (bytes.drop count) := by
  have joined := decode_append (bytes.take count) (bytes.drop count)
  rwa [List.take_append_drop, List.length_drop, mul_comm] at joined

theorem decode_drop_lt : decode (bytes.drop count) < 256 ^ (bytes.length - count) := by
  rw [← List.length_drop]
  exact decode_lt _

theorem decode_take :
    decode (bytes.take count) = decode bytes / 256 ^ (bytes.length - count) := by
  rw [decode_take_drop bytes count, Nat.mul_add_div (by positivity),
    Nat.div_eq_of_lt (decode_drop_lt bytes count), Nat.add_zero]

theorem decode_drop :
    decode (bytes.drop count) = decode bytes % 256 ^ (bytes.length - count) := by
  rw [decode_take_drop bytes count, Nat.mul_add_mod, Nat.mod_eq_of_lt]
  exact decode_drop_lt bytes count

end Split

end BigEndian

namespace Wire

/-! ## A narrower width -/

section Widths

variable {narrow wide : Width} {excess : Nat}

theorem Field.bytes_ofValue_narrow (total : wide.byteCount = excess + narrow.byteCount)
    (value : UInt32) :
    (ofValue narrow value).bytes = (ofValue wide value).bytes.rtake narrow.byteCount := by
  rw [List.rtake, length_ofValue, ofValue, ofValue, total, Nat.add_sub_cancel,
    BigEndian.encode_add, List.drop_left' (BigEndian.length_encode ..)]

theorem map_decode_append {width : Width} {front : Bytes}
    (length : front.length = width.byteCount) (back : Bytes) :
    (decode width (some (front ++ back))).map UInt32.toNat =
      .success (BigEndian.decode front) := by
  rw [decode_append length]
  exact congrArg Outcome.success (toNat_decode length)

theorem exists_field_of_decode {width : Width} {view : View} {number : UInt32}
    (read : (decode width view).result = .ok number) :
    ∃ front back, view = some (front ++ back) ∧ front.length = width.byteCount ∧
      number.toNat = BigEndian.decode front := by
  rcases view with _ | bytes
  · contradiction
  · rcases Message.exists_field_or_short width bytes with
      ⟨front, back, rfl, length⟩ | short
    · rw [decode_append length] at read
      obtain rfl := Except.ok.inj read
      exact ⟨front, back, rfl, length, toNat_decode length⟩
    · rw [decode_short short] at read
      contradiction

theorem map_decode_narrow (total : wide.byteCount = excess + narrow.byteCount)
    {view : View} {number : UInt32} (read : (decode wide view).result = .ok number) :
    (decode narrow view).map UInt32.toNat =
      .success (number.toNat / 2 ^ (8 * excess)) := by
  obtain ⟨front, back, rfl, length, denoted⟩ := exists_field_of_decode read
  have taken : (front.take narrow.byteCount).length = narrow.byteCount := by
    rw [List.length_take]
    omega
  have behind : front.length - narrow.byteCount = excess := by omega
  rw [denoted, BigEndian.two_pow_bits, ← behind, ← BigEndian.decode_take,
    ← map_decode_append taken (front.drop narrow.byteCount ++ back), ← List.append_assoc,
    List.take_append_drop]

theorem map_decode_advance (total : wide.byteCount = excess + narrow.byteCount)
    {window : Window} {number : UInt32}
    (read : (decode wide window.view).result = .ok number) :
    (decode narrow (window.advance (.ofNat excess)).view).map UInt32.toNat =
      .success (number.toNat % 2 ^ (8 * narrow.byteCount)) := by
  obtain ⟨front, back, view, length, denoted⟩ := exists_field_of_decode read
  have count : (UInt64.ofNat excess).toNat = excess := by
    have small := wide.byteCount_le
    exact UInt64.toNat_ofNat_of_lt' (lt_of_le_of_lt (by omega) (show 4 < _ by decide))
  have dropped : (front.drop excess).length = narrow.byteCount := by
    rw [List.length_drop]
    omega
  have behind : front.length - excess = narrow.byteCount := by omega
  rw [Window.view_advance_of_view view, count, Nat.min_eq_left (by simp; omega),
    List.drop_append_of_le_length (by omega), map_decode_append dropped, denoted,
    BigEndian.two_pow_bits, BigEndian.decode_drop, behind]

end Widths

/-! ## The named readers -/

theorem toNat_joined (high low : UInt8) :
    (high.toUInt16 <<< 8 ||| low.toUInt16).toNat = 256 * high.toNat + low.toNat := by
  have bounds := And.intro high.toNat_lt low.toNat_lt
  rw [UInt16.toNat_or, UInt16.toNat_shiftLeft, UInt8.toNat_toUInt16,
    UInt8.toNat_toUInt16]
  change (high.toNat <<< 8) % 2 ^ 16 ||| low.toNat = _
  rw [Nat.mod_eq_of_lt (by rw [Nat.shiftLeft_eq]; omega),
    ← Nat.shiftLeft_add_eq_or_of_lt bounds.2, Nat.shiftLeft_eq, Nat.mul_comm]

theorem map_decodeUInt16 (view : View) :
    (decodeUInt16 view).map UInt16.toNat = (decode .two view).map UInt32.toNat := by
  rcases view with _ | _ | ⟨high, _ | ⟨low, rest⟩⟩
  · rfl
  · rfl
  · rfl
  · have joined : BigEndian.decode [high, low] = 256 * high.toNat + low.toNat := by
      simp [BigEndian.decode]
    have length : [high, low].length = Width.two.byteCount := rfl
    have read := map_decode_append length rest
    rw [joined, ← toNat_joined] at read
    exact read.symm

def Decoder.width : Decoder → Width
  | .field width => width
  | .uint16 => .two
  | .uint24 => .three
  | .uint32 => .four

theorem Decoder.outcome_eq (decoder : Decoder) (view : View) :
    decoder.outcome view = (decode decoder.width view).map UInt32.toNat := by
  cases decoder with
  | field width => rfl
  | uint16 => exact map_decodeUInt16 view
  | uint24 => rfl
  | uint32 => rfl

/-- Of two widths, the field of the narrower one is the end of that of the wider one.
Where the wider one is read from a window, the narrower one is read too, as the quotient
there and as the remainder from the window that has moved on by the difference.  Every
reader and every writer answers and records what the general one does at its width. -/
theorem widths_nest :
    (∀ narrow wide : Width, narrow.byteCount < wide.byteCount →
      let excess := wide.byteCount - narrow.byteCount
      (∀ (memory memory' : Allocator) (value : UInt32),
        memory narrow.byteCount = true → memory' wide.byteCount = true →
          ∃ short long, (encode memory narrow value).result = .ok short ∧
            (encode memory' wide value).result = .ok long ∧
            short.bytes = long.bytes.rtake narrow.byteCount) ∧
      ∀ (window : Window) (number : UInt32),
        (decode wide window.view).result = .ok number →
          (decode narrow window.view).map UInt32.toNat =
              .success (number.toNat / 2 ^ (8 * excess)) ∧
            (decode narrow (window.advance (.ofNat excess)).view).map UInt32.toNat =
              .success (number.toNat % 2 ^ (8 * narrow.byteCount))) ∧
    (∀ (decoder : Decoder) (view : View),
      decoder.outcome view = (decode decoder.width view).map UInt32.toNat) ∧
    ∀ (encoder : Encoder) (memory : Allocator),
      encoder.outcome memory = encode memory encoder.width encoder.value := by
  refine ⟨fun narrow wide narrower => ?_, Decoder.outcome_eq,
    fun encoder memory => encoder.outcome_eq memory⟩
  have total :
      wide.byteCount = (wide.byteCount - narrow.byteCount) + narrow.byteCount := by
    omega
  refine ⟨fun memory memory' value granted granted' => ?_, fun window number read => ?_⟩
  · exact ⟨_, _, result_encode_eq_ok_iff.mpr ⟨granted, rfl⟩,
      result_encode_eq_ok_iff.mpr ⟨granted', rfl⟩, Field.bytes_ofValue_narrow total value⟩
  · exact ⟨map_decode_narrow total read, map_decode_advance total read⟩

theorem two_bytes_in_four :
    let window : Window := ⟨[0xee, 0xaa, 0xbb, 0xcc, 0xdd, 0x01], 1, 5⟩
    Width.two.byteCount < Width.four.byteCount ∧
      (∃ short long, (encode .granting .two 0xaabbccdd).result = .ok short ∧
        (encode .granting .four 0xaabbccdd).result = .ok long ∧
        short.bytes = long.bytes.rtake 2) ∧
      (decode .four window.view).result = .ok 0xaabbccdd ∧
      (decode .two window.view).map UInt32.toNat = .success 0xaabb ∧
      (decode .two (window.advance 2).view).map UInt32.toNat = .success 0xccdd := by
  have narrower : Width.two.byteCount < Width.four.byteCount := by decide
  have read :
      (decode .four (Window.mk [0xee, 0xaa, 0xbb, 0xcc, 0xdd, 0x01] 1 5).view).result =
      .ok 0xaabbccdd := by
    decide
  obtain ⟨written, viewed⟩ := widths_nest.1 .two .four narrower
  obtain ⟨front, back⟩ := viewed _ _ read
  exact ⟨narrower, written .granting .granting _ rfl rfl, read, front, back⟩

end Wire

end NumericFields
