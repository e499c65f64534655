import NumericFields.Proofs.Cursor
import NumericFields.Proofs.Wire.Field
import NumericFields.Wire.Field

/-!
# Messages read back

Each field that is read takes its own bytes off the front of the window and nothing
else, so what has been read and what is still in sight always make up the message.
Reading stops at the first field that the bytes in sight are too few for.
-/

namespace NumericFields.Wire.Message

/-- Writes the fields one after the other, each in memory of its own. -/
def write (memory : Allocator) : List (Width × UInt32) → Except Failure Bytes
  | [] => .ok []
  | (width, value) :: fields =>
      match (encode memory width value).result with
      | .error failure => .error failure
      | .ok field => (write memory fields).map (field.bytes ++ ·)

def extent (widths : List Width) : Nat := (widths.map Width.byteCount).sum

/-- The field at `index` is the first that ends behind the available bytes. -/
def EndsBehind (widths : List Width) (available index : Nat) : Prop :=
  available < extent (widths.take (index + 1)) ∧
    ∀ earlier ≤ index, extent (widths.take earlier) ≤ available

instance (widths : List Width) (available index : Nat) :
    Decidable (EndsBehind widths available index) :=
  inferInstanceAs (Decidable (_ ∧ _))

@[simp] theorem extent_nil : extent [] = 0 := rfl

@[simp] theorem extent_cons (width : Width) (widths : List Width) :
    extent (width :: widths) = width.byteCount + extent widths := by
  simp [extent]

@[simp] theorem bytes_nil : bytes [] = [] := rfl

@[simp] theorem bytes_cons (width : Width) (value : UInt32)
    (fields : List (Width × UInt32)) :
    bytes ((width, value) :: fields) =
      (Field.ofValue width value).bytes ++ bytes fields := by
  simp [bytes]

/-! ## Where the bytes run out -/

theorem endsBehind_zero {width : Width} {widths : List Width} {available : Nat} :
    EndsBehind (width :: widths) available 0 ↔ available < width.byteCount := by
  simp [EndsBehind]

theorem endsBehind_succ {width : Width} {widths : List Width} {rest index : Nat} :
    EndsBehind (width :: widths) (width.byteCount + rest) (index + 1) ↔
      EndsBehind widths rest index := by
  constructor
  · rintro ⟨beyond, within⟩
    refine ⟨by simpa using beyond, fun earlier below => ?_⟩
    simpa using within (earlier + 1) (by omega)
  · rintro ⟨beyond, within⟩
    refine ⟨by simpa using beyond, fun earlier below => ?_⟩
    cases earlier with
    | zero => simp
    | succ earlier => simpa using within earlier (by omega)

theorem not_endsBehind_succ {width : Width} {widths : List Width}
    {available index : Nat} (short : available < width.byteCount) :
    ¬EndsBehind (width :: widths) available (index + 1) := by
  rintro ⟨-, within⟩
  have first := within 1 (by omega)
  simp at first
  omega

/-! ## Writing -/

theorem write_granting (fields : List (Width × UInt32)) :
    write .granting fields = .ok (bytes fields) := by
  induction fields with
  | nil => rfl
  | cons field fields ih =>
      obtain ⟨width, value⟩ := field
      simp [write, encode_eq, Allocator.granting, ih, Except.map]

theorem eq_bytes_of_write {memory : Allocator} {fields : List (Width × UInt32)}
    {message : Bytes} (written : write memory fields = .ok message) :
    message = bytes fields := by
  induction fields generalizing message with
  | nil => exact (Except.ok.inj written).symm
  | cons field fields ih =>
      obtain ⟨width, value⟩ := field
      rw [write, encode_eq] at written
      cases granted : memory width.byteCount with
      | false => simp [granted] at written
      | true =>
          cases rest : write memory fields with
          | error failure => simp [granted, rest, Except.map] at written
          | ok message =>
              simp only [granted, rest, if_true, Outcome.result_success, Except.map,
                Except.ok.injEq] at written
              rw [← written, ih rest, bytes_cons]

/-! ## Reading one field -/

section Step

variable {window : Window} {width : Width} {front back : Bytes}

theorem view_advance_field (addressable : Addressable window.buffer)
    (view : window.view = some (front ++ back))
    (length : front.length = width.byteCount) :
    (window.advance (.ofNat width.byteCount)).view = some back := by
  have count : (UInt64.ofNat width.byteCount).toNat = front.length := by
    rw [length]
    cases width <;> rfl
  rw [Window.view_advance addressable, view, Option.map_some, count,
    Nat.min_eq_left (by simp), List.drop_left]

theorem read_field (view : window.view = some (front ++ back))
    (length : front.length = width.byteCount) (widths : List Width) :
    read window (width :: widths) =
      let rest := read (window.advance (.ofNat width.byteCount)) widths
      ⟨UInt32.ofNat (BigEndian.decode front) :: rest.values, rest.failure,
        rest.window⟩ := by
  rw [read, view, decode_append length]
  rfl

theorem read_short {seen : Bytes} (view : window.view = some seen)
    (short : seen.length < width.byteCount) (widths : List Width) :
    read window (width :: widths) = ⟨[], some .invalidInput, window⟩ := by
  rw [read, view, decode_short short]
  rfl

end Step

theorem exists_field_or_short (width : Width) (seen : Bytes) :
    (∃ front back, seen = front ++ back ∧ front.length = width.byteCount) ∨
      seen.length < width.byteCount := by
  by_cases short : seen.length < width.byteCount
  · exact .inr short
  · refine .inl ⟨seen.take width.byteCount, seen.drop width.byteCount, ?_, ?_⟩
    · rw [List.take_append_drop]
    · rw [List.length_take]
      omega

/-! ## Reading a message -/

section Run

variable {window : Window}

theorem read_bytes_append (addressable : Addressable window.buffer)
    {fields : List (Width × UInt32)} {trailer : Bytes}
    (view : window.view = some (bytes fields ++ trailer)) :
    (read window (fields.map Prod.fst)).values.map UInt32.toNat =
        fields.map (fun field => field.2.toNat % 2 ^ (8 * field.1.byteCount)) ∧
      (read window (fields.map Prod.fst)).failure = none ∧
      (read window (fields.map Prod.fst)).window.view = some trailer := by
  -- only the bytes in sight carry over from one field to the next, not the offset
  induction fields generalizing window with
  | nil => exact ⟨rfl, rfl, view⟩
  | cons field fields ih =>
      obtain ⟨width, value⟩ := field
      rw [bytes_cons, List.append_assoc] at view
      have length := Field.length_ofValue width value
      obtain ⟨values, failure, rest⟩ :=
        ih (Window.addressable_advance addressable _)
          (view_advance_field addressable view length)
      rw [List.map_cons, read_field view length]
      refine ⟨?_, failure, rest⟩
      rw [List.map_cons, values, toNat_decode length, Field.decode_ofValue,
        List.map_cons]

/-- What was read, written again, and what is in sight make up the message. -/
theorem exists_rest_of_read (addressable : Addressable window.buffer)
    {message : Bytes} (view : window.view = some message) (widths : List Width) :
    ∃ rest, (read window widths).window.view = some rest ∧
      bytes (widths.zip (read window widths).values) ++ rest = message := by
  induction widths generalizing window message with
  | nil => exact ⟨message, view, rfl⟩
  | cons width widths ih =>
      rcases exists_field_or_short width message with
        ⟨front, back, rfl, length⟩ | short
      · obtain ⟨rest, inSight, joined⟩ :=
          ih (Window.addressable_advance addressable _)
            (view_advance_field addressable view length)
        refine ⟨rest, ?_, ?_⟩
        · rw [read_field view length]
          exact inSight
        · rw [read_field view length, List.zip_cons_cons, bytes_cons,
            bytes_ofValue_decode length, List.append_assoc, joined]
      · rw [read_short view short]
        exact ⟨message, view, rfl⟩

theorem failure_read_iff (addressable : Addressable window.buffer) {message : Bytes}
    (view : window.view = some message) (widths : List Width) (index : Nat) :
    (read window widths).failure = some .invalidInput ∧
        (read window widths).values.length = index ↔
      EndsBehind widths message.length index := by
  induction widths generalizing window message index with
  | nil => simp [read, EndsBehind]
  | cons width widths ih =>
      rcases exists_field_or_short width message with
        ⟨front, back, rfl, length⟩ | short
      · rw [read_field view length, List.length_append, length]
        cases index with
        | zero => simp [endsBehind_zero]
        | succ index =>
            rw [endsBehind_succ, ← ih (Window.addressable_advance addressable _)
              (view_advance_field addressable view length)]
            simp
      · rw [read_short view short]
        cases index with
        | zero => simpa [endsBehind_zero] using short
        | succ index => simpa using not_endsBehind_succ short

theorem failure_read (window : Window) (widths : List Width) :
    (read window widths).failure = none ∨
      (read window widths).failure = some .invalidInput := by
  induction widths generalizing window with
  | nil => exact .inl rfl
  | cons width widths ih =>
      rw [read]
      rcases result_decode_cases width window.view with ⟨value, decoded⟩ | failed
      · rw [decoded]
        exact ih _
      · rw [failed]
        exact .inr rfl

end Run

/-- Fields that are written one after the other are read back in order, up to the
bits above their widths, from a window that starts with them, and what follows them
stays in sight.  From any buffer the fields are read up to the first that it is too
short for, and the values read are those that write the same bytes again. -/
theorem messages_read_back :
    (∀ (memory : Allocator) (fields : List (Width × UInt32))
        (before message trailer : Bytes),
      write memory fields = .ok message →
      Addressable (before ++ (message ++ trailer)) →
      let reading :=
        read ⟨before ++ (message ++ trailer), .ofNat before.length,
          .ofNat (message ++ trailer).length⟩ (fields.map Prod.fst)
      reading.values.map UInt32.toNat =
          fields.map (fun field => field.2.toNat % 2 ^ (8 * field.1.byteCount)) ∧
        reading.failure = none ∧ reading.window.view = some trailer) ∧
    ∀ (buffer : Bytes) (widths : List Width), Addressable buffer →
      let reading := read (.whole buffer) widths
      (∀ index, reading.failure ≠ none ∧ reading.values.length = index ↔
          EndsBehind widths buffer.length index) ∧
        (reading.failure = none ∨ reading.failure = some .invalidInput) ∧
        ∃ consumed rest, buffer = consumed ++ rest ∧
          reading.window.view = some rest ∧
          write .granting (widths.zip reading.values) = .ok consumed := by
  constructor
  · intro memory fields before message trailer written addressable
    rw [eq_bytes_of_write written] at addressable ⊢
    exact read_bytes_append addressable (Window.view_suffix addressable)
  · intro buffer widths addressable
    have view := Window.view_whole addressable
    have stopped := failure_read (.whole buffer) widths
    refine ⟨fun index => ?_, stopped, ?_⟩
    · rw [← failure_read_iff addressable view]
      rcases stopped with stopped | stopped <;> simp [stopped]
    · obtain ⟨rest, inSight, joined⟩ :=
        exists_rest_of_read addressable view widths
      exact ⟨_, rest, joined.symm, inSight, write_granting _⟩

/-- A value too great for its field, and a buffer that ends inside its second field. -/
theorem message_drops_high_bytes :
    write .granting [(.two, 0xaabbccdd), (.three, 1)] = .ok [0xcc, 0xdd, 0, 0, 1] ∧
      Addressable [0xee, 0xcc, 0xdd, 0, 0, 1, 7] ∧
      (read ⟨[0xee, 0xcc, 0xdd, 0, 0, 1, 7], 1, 6⟩ [.two, .three]).values.map
          UInt32.toNat = [0xccdd, 1] ∧
      Addressable [1, 2, 3] ∧ EndsBehind [.two, .two] 3 1 ∧
      (read (.whole [1, 2, 3]) [.two, .two]).values.length = 1 := by
  have written : write .granting [(.two, 0xaabbccdd), (.three, 1)] =
      .ok [0xcc, 0xdd, 0, 0, 1] := rfl
  have behind : EndsBehind [.two, .two] 3 1 := by decide
  refine ⟨written, by decide, ?_, by decide, behind, ?_⟩
  · exact (messages_read_back.1 _ _ [0xee] _ [7] written (by decide)).1
  · exact (((messages_read_back.2 [1, 2, 3] [.two, .two] (by decide)).1 1).mpr behind).2

end NumericFields.Wire.Message
