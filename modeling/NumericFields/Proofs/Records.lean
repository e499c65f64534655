import NumericFields.Floating.Parse
import NumericFields.Proofs.Integer.Reader
import NumericFields.Proofs.Wire.Field

/-!
# What is left in the log

A conversion that gives a value is silent.  One that fails leaves a single record,
of its failure and of all it was given to read, or of the bytes it had no memory
for.  Only a target that refuses a number of its own kind fails in silence, and the
machine integers refuse none.
-/

namespace NumericFields

theorem Record.text_none (failure : Failure) :
    Record.text ⟨failure, none⟩ = failure.message ++ " \x7binput = null\x7d" := by
  apply String.toList_inj.mp
  simp [Record.text, Record.inputText]

theorem Record.text_some (failure : Failure) (bytes : Bytes) :
    Record.text ⟨failure, some bytes⟩ =
      failure.message ++ " \x7binput = \x22" ++
        String.ofList (Excerpt.text .diagnostic bytes) ++ "\x22\x7d" := by
  apply String.toList_inj.mp
  simp [Record.text, Record.inputText]

namespace Outcome

variable {α : Type u} {β : Type v}

/-- A value comes with no record, a failure with one, of itself and the input. -/
def Recorded (input : View) (outcome : Outcome α) : Prop :=
  match outcome.result with
  | .ok _ => outcome.log = []
  | .error failure => outcome.log = [⟨failure, input⟩]

@[simp] theorem recorded_success (input : View) (value : α) :
    (success value).Recorded input := rfl

@[simp] theorem recorded_reject (failure : Failure) (input : View) :
    (reject failure input : Outcome α).Recorded input := rfl

theorem recorded_ofExcept (input : View) (result : Except Failure α) :
    (ofExcept input result).Recorded input := by
  cases result with
  | ok value => exact recorded_success input value
  | error failure => exact recorded_reject failure input

theorem recorded_reading (view : View) (read : Bytes → Except Failure α) :
    (reading view read).Recorded view := by
  rcases view with _ | _ | ⟨first, rest⟩
  · exact recorded_reject ..
  · exact recorded_reject ..
  · exact recorded_ofExcept ..

@[simp] theorem recorded_map (input : View) (change : α → β) (outcome : Outcome α) :
    (outcome.map change).Recorded input ↔ outcome.Recorded input := by
  rcases outcome with ⟨failure | value, log⟩ <;> rfl

end Outcome

/-! ## Integers -/

namespace Integer

def Target.Refuses {α : Type u} (target : Target α) (view : View) : Prop :=
  ∃ number, (∃ text ∈ view, Denotes target.kind text number) ∧
    target.ofInt? number = none

theorem Target.Exact.not_refuses {α : Type u} {target : Target α} {toInt : α → Int}
    (exact : target.Exact toInt) (view : View) : ¬target.Refuses view := by
  rintro ⟨number, ⟨text, -, sign, digits, -, -, -, -, -, admits⟩, refused⟩
  have held := exact number admits
  rw [refused] at held
  contradiction

namespace Reader

theorem not_refuses (reader : Reader) (view : View) :
    ¬reader.target.2.Refuses view := by
  obtain ⟨toInt, exact, -⟩ := reader.exists_exact
  exact exact.not_refuses view

def ofKind (kind : Kind) : Reader :=
  match kind.signedness with
  | .unsigned => .unsigned kind.width
  | .signed => .signed kind.width

@[simp] theorem kind_ofKind (kind : Kind) : (ofKind kind).kind = kind := by
  rcases kind with ⟨width, signedness⟩
  cases signedness <;> rfl

theorem recorded (reader : Reader) (view : View) :
    (reader.outcome view).Recorded view := by
  rw [reader.outcome_eq]
  exact Outcome.recorded_reading ..

theorem outcome_ofKind (reader : Reader) (view : View) :
    reader.outcome view = (ofKind reader.kind).outcome view := by
  rw [outcome_eq, outcome_eq, kind_ofKind]

end Reader

theorem parse_recorded_or_refused {α : Type u} (target : Target α) (view : View) :
    (¬target.Refuses view ∧ (parse target view).Recorded view) ∨
      (target.Refuses view ∧ parse target view = ⟨.error .overflow, []⟩) := by
  have recorded : (readView target.kind view).Recorded view :=
    Outcome.recorded_reading ..
  simp only [Target.Refuses, ← result_readView_eq_ok_iff, parse]
  generalize readView target.kind view = outcome at recorded ⊢
  rcases outcome with ⟨failure | number, log⟩
  · exact .inl ⟨by simp, recorded⟩
  · cases converted : target.ofInt? number with
    | some value =>
        refine .inl ⟨by simp [converted], ?_⟩
        simpa [Outcome.Recorded, Outcome.convert, converted] using recorded
    | none =>
        refine .inr ⟨⟨number, rfl, converted⟩, ?_⟩
        obtain rfl : log = [] := recorded
        simp [Outcome.convert, converted]

end Integer

/-! ## Fields -/

namespace Wire

/-- The readers of fields: by width, and one for each width. -/
inductive Decoder where
  | field (width : Width)
  | uint16
  | uint24
  | uint32
  deriving DecidableEq, Repr

def Decoder.outcome (decoder : Decoder) (view : View) : Outcome Nat :=
  match decoder with
  | .field width => (decode width view).map UInt32.toNat
  | .uint16 => (decodeUInt16 view).map UInt16.toNat
  | .uint24 => (decodeUInt24 view).map UInt32.toNat
  | .uint32 => (decodeUInt32 view).map UInt32.toNat

inductive Encoder where
  | field (width : Width) (value : UInt32)
  | uint16 (value : UInt16)
  | uint24 (value : UInt32)
  | uint32 (value : UInt32)
  deriving DecidableEq, Repr

namespace Encoder

def width : Encoder → Width
  | .field width _ => width
  | .uint16 _ => .two
  | .uint24 _ => .three
  | .uint32 _ => .four

def value : Encoder → UInt32
  | .field _ value | .uint24 value | .uint32 value => value
  | .uint16 value => value.toUInt32

def outcome (memory : Allocator) : Encoder → Outcome Field
  | .field width value => encode memory width value
  | .uint16 value => encodeUInt16 memory value
  | .uint24 value => encodeUInt24 memory value
  | .uint32 value => encodeUInt32 memory value

theorem outcome_eq (memory : Allocator) (encoder : Encoder) :
    encoder.outcome memory = encode memory encoder.width encoder.value := by
  cases encoder <;> rfl

end Encoder

theorem recorded_decode (width : Width) (view : View) :
    (decode width view).Recorded view := by
  cases view with
  | none => exact Outcome.recorded_reject ..
  | some bytes =>
      rw [decode]
      split
      · exact Outcome.recorded_success ..
      · exact Outcome.recorded_reject ..

theorem recorded_decodeUInt16 (view : View) : (decodeUInt16 view).Recorded view := by
  rcases view with _ | _ | ⟨high, _ | ⟨low, rest⟩⟩ <;> rfl

theorem Decoder.recorded (decoder : Decoder) (view : View) :
    (decoder.outcome view).Recorded view := by
  cases decoder with
  | field width => simp [outcome, recorded_decode]
  | uint16 => simp [outcome, recorded_decodeUInt16]
  | uint24 => simp [outcome, decodeUInt24, recorded_decode]
  | uint32 => simp [outcome, decodeUInt32, recorded_decode]

structure Encoder.Stores (encoder : Encoder) (bytes : Bytes) : Prop where
  length : bytes.length = encoder.width.byteCount
  low : BigEndian.decode bytes =
    encoder.value.toNat % 2 ^ (8 * encoder.width.byteCount)
  recorded : ∀ memory, (encoder.outcome memory).Recorded (some bytes)
  result : ∀ memory,
    (encoder.outcome memory).result =
      if memory bytes.length then .ok ⟨bytes⟩ else .error .allocation

theorem Encoder.stores_ofValue (encoder : Encoder) :
    encoder.Stores (Field.ofValue encoder.width encoder.value).bytes where
  length := Field.length_ofValue ..
  low := Field.decode_ofValue ..
  recorded memory := by
    rw [outcome_eq, encode_eq]
    split
    · exact Outcome.recorded_success ..
    · exact Outcome.recorded_reject ..
  result memory := by
    rw [outcome_eq, encode_eq, Field.length_ofValue]
    split <;> rfl

end Wire

/-- Every conversion of a view leaves one record if it fails and none if it does
not, except for integer targets that refuse a number of their kind, which no machine
integer does; every encoder does the same of the low bytes of its number. -/
theorem failures_leave_one_record :
    (∀ failure, Record.text ⟨failure, none⟩ =
      failure.message ++ " \x7binput = null\x7d") ∧
    (∀ failure bytes, Record.text ⟨failure, some bytes⟩ =
      failure.message ++ " \x7binput = \x22" ++
        String.ofList (Excerpt.text .diagnostic bytes) ++ "\x22\x7d") ∧
    (∀ view,
      (∀ reader : Integer.Reader,
        (reader.outcome view).Recorded view ∧
          reader.outcome view = (Integer.Reader.ofKind reader.kind).outcome view ∧
          ¬reader.target.2.Refuses view ∧
          ∃ toInt, reader.outcome view =
            (Integer.parse reader.target.2 view).map toInt) ∧
      (∀ {α : Type u} (target : Integer.Target α),
        (¬target.Refuses view ∧ (Integer.parse target view).Recorded view) ∨
          (target.Refuses view ∧ Integer.parse target view = ⟨.error .overflow, []⟩)) ∧
      (∀ {α : Type u} (target : Floating.Target α),
        (Floating.parse target view).Recorded view) ∧
      (Floating.parseSingle view).Recorded view ∧
      (Floating.parseDouble view).Recorded view ∧
      ∀ decoder : Wire.Decoder, (decoder.outcome view).Recorded view) ∧
    ∀ encoder : Wire.Encoder, ∃ bytes, encoder.Stores bytes := by
  refine ⟨Record.text_none, Record.text_some, fun view => ?_,
    fun encoder => ⟨_, encoder.stores_ofValue⟩⟩
  refine ⟨fun reader => ?_, fun target => Integer.parse_recorded_or_refused target view,
    fun target => Outcome.recorded_reading .., Outcome.recorded_reading ..,
    Outcome.recorded_reading .., fun decoder => decoder.recorded view⟩
  obtain ⟨toInt, -, converts⟩ := reader.exists_exact
  exact ⟨reader.recorded view, reader.outcome_ofKind view, reader.not_refuses view,
    toInt, converts view⟩

/-- A target of seven bits refuses 200, which is a number of eight, in silence. -/
theorem seven_bit_target_refuses :
    let target := Integer.Target.between ⟨.w8, .unsigned⟩ 0 127
    let view : View := some [0x32, 0x30, 0x30]
    target.Refuses view ∧ Integer.parse target view = ⟨.error .overflow, []⟩ := by
  intro target view
  have accepted : (Integer.readView target.kind view).result = .ok 200 := by decide
  have refuses : target.Refuses view :=
    ⟨200, (Integer.result_readView_eq_ok_iff _ _ _).mp accepted, rfl⟩
  obtain ⟨-, -, recorded, -⟩ := failures_leave_one_record.{0}
  obtain ⟨-, targets, -⟩ := recorded view
  rcases targets target with ⟨accepts, -⟩ | ⟨-, silent⟩
  · exact absurd refuses accepts
  · exact ⟨refuses, silent⟩

end NumericFields
