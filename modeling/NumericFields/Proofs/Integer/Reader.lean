import NumericFields.Proofs.Integer.Reading

/-!
# The integer readers

Every reader of machine integers closes with a conversion that holds each number
of its kind, so it answers and records what `readView` does for that kind.  A
target of a caller's own may refuse a number, and only then answers otherwise.
-/

namespace NumericFields

def Outcome.map {α : Type u} {β : Type v} (change : α → β) (outcome : Outcome α) :
    Outcome β :=
  ⟨outcome.result.map change, outcome.log⟩

namespace Integer

/-- The readers of machine integers: by width, and one for each type. -/
inductive Reader where
  | unsigned (width : Width)
  | signed (width : Width)
  | uint8
  | uint16
  | uint32
  | uint64
  | int8
  | int16
  | int32
  | int64
  | size
  | distance
  deriving DecidableEq, Repr

namespace Reader

def kind : Reader → Kind
  | .unsigned width => ⟨width, .unsigned⟩
  | .signed width => ⟨width, .signed⟩
  | .uint8 => ⟨.w8, .unsigned⟩
  | .uint16 => ⟨.w16, .unsigned⟩
  | .uint32 => ⟨.w32, .unsigned⟩
  | .uint64 | .size => ⟨.w64, .unsigned⟩
  | .int8 => ⟨.w8, .signed⟩
  | .int16 => ⟨.w16, .signed⟩
  | .int32 => ⟨.w32, .signed⟩
  | .int64 | .distance => ⟨.w64, .signed⟩

/-- What the reader answers, its value taken as a number. -/
def outcome (reader : Reader) (view : View) : Outcome Int :=
  match reader with
  | .unsigned width => (parseUnsigned width view).map fun value => value.toNat
  | .signed width => (parseSigned width view).map Int64.toInt
  | .uint8 => (parseUInt8 view).map fun value => value.toNat
  | .uint16 => (parseUInt16 view).map fun value => value.toNat
  | .uint32 => (parseUInt32 view).map fun value => value.toNat
  | .uint64 => (parseUInt64 view).map fun value => value.toNat
  | .int8 => (parseInt8 view).map Int8.toInt
  | .int16 => (parseInt16 view).map Int16.toInt
  | .int32 => (parseInt32 view).map Int32.toInt
  | .int64 => (parseInt64 view).map Int64.toInt
  | .size => (parseSize view).map fun value => value.toNat
  | .distance => (parseDistance view).map Int64.toInt

def target : Reader → (α : Type) × Target α
  | .unsigned width => ⟨UInt64, ⟨width, .unsigned⟩, Target.toUInt64?⟩
  | .signed width => ⟨Int64, ⟨width, .signed⟩, Target.toInt64?⟩
  | .uint8 => ⟨UInt8, .uint8⟩
  | .uint16 => ⟨UInt16, .uint16⟩
  | .uint32 => ⟨UInt32, .uint32⟩
  | .uint64 => ⟨UInt64, .uint64⟩
  | .int8 => ⟨Int8, .int8⟩
  | .int16 => ⟨Int16, .int16⟩
  | .int32 => ⟨Int32, .int32⟩
  | .int64 => ⟨Int64, .int64⟩
  | .size => ⟨UInt64, .size⟩
  | .distance => ⟨Int64, .distance⟩

theorem kind_target (reader : Reader) : reader.target.2.kind = reader.kind := by
  cases reader <;> rfl

end Reader

/-! ## Exact targets -/

namespace Target

/-- The target holds every number of its kind as a value that denotes it. -/
def Exact {α : Type u} (target : Target α) (toInt : α → Int) : Prop :=
  ∀ number, target.kind.Admits number →
    (target.ofInt? number).map toInt = some number

theorem exact_unsigned (width : Width) :
    Exact ⟨⟨width, .unsigned⟩, toUInt64?⟩ fun value => value.toNat := by
  rintro number ⟨low, high⟩
  have narrower : (2 : Int) ^ width.bits ≤ UInt64.size := by cases width <;> decide
  simp [toUInt64?] at low high narrower ⊢
  omega

theorem exact_signed (width : Width) :
    Exact ⟨⟨width, .signed⟩, toInt64?⟩ Int64.toInt := by
  rintro number ⟨low, high⟩
  have narrower : (2 : Int) ^ (width.bits - 1) ≤ 2 ^ 63 := by cases width <;> decide
  simp only at low high
  have held : (Int64.ofInt number).toInt = number :=
    Int64.toInt_ofInt_of_le (by omega) (by omega)
  simp [toInt64?, Int64.toInt_maxValue] at low high held ⊢
  omega

theorem exact_uint8 : uint8.Exact fun value => value.toNat := by
  rintro number ⟨low, high⟩
  simp [uint8, Width.bits] at low high ⊢
  omega

theorem exact_uint16 : uint16.Exact fun value => value.toNat := by
  rintro number ⟨low, high⟩
  simp [uint16, Width.bits] at low high ⊢
  omega

theorem exact_uint32 : uint32.Exact fun value => value.toNat := by
  rintro number ⟨low, high⟩
  simp [uint32, Width.bits] at low high ⊢
  omega

theorem exact_int8 : int8.Exact Int8.toInt := by
  rintro number ⟨low, high⟩
  simp only [int8, Width.bits] at low high
  have held : (Int8.ofInt number).toInt = number :=
    Int8.toInt_ofInt_of_le (by omega) (by omega)
  simp [int8, Int8.toInt_maxValue] at held ⊢
  omega

theorem exact_int16 : int16.Exact Int16.toInt := by
  rintro number ⟨low, high⟩
  simp only [int16, Width.bits] at low high
  have held : (Int16.ofInt number).toInt = number :=
    Int16.toInt_ofInt_of_le (by omega) (by omega)
  simp [int16, Int16.toInt_maxValue] at held ⊢
  omega

theorem exact_int32 : int32.Exact Int32.toInt := by
  rintro number ⟨low, high⟩
  simp only [int32, Width.bits] at low high
  have held : (Int32.ofInt number).toInt = number :=
    Int32.toInt_ofInt_of_le (by omega) (by omega)
  simp [int32, Int32.toInt_maxValue] at held ⊢
  omega

end Target

theorem map_parse_of_exact {α : Type u} {target : Target α} {toInt : α → Int}
    (exact : target.Exact toInt) (view : View) :
    (parse target view).map toInt = readView target.kind view := by
  have admits (number : Int) (read : (readView target.kind view).result = .ok number) :=
    admits_of_result_readView read
  rw [parse]
  generalize readView target.kind view = outcome at admits ⊢
  rcases outcome with ⟨failure | number, log⟩
  · rfl
  · have held := exact number (admits number rfl)
    obtain ⟨value, converted, denoted⟩ := Option.map_eq_some_iff.mp held
    simp [Outcome.map, Outcome.convert, Except.map, converted, denoted]

theorem Reader.exists_exact (reader : Reader) :
    ∃ toInt, reader.target.2.Exact toInt ∧
      ∀ view, reader.outcome view = (parse reader.target.2 view).map toInt := by
  cases reader with
  | unsigned width => exact ⟨_, Target.exact_unsigned width, fun _ => rfl⟩
  | signed width => exact ⟨_, Target.exact_signed width, fun _ => rfl⟩
  | uint8 => exact ⟨_, Target.exact_uint8, fun _ => rfl⟩
  | uint16 => exact ⟨_, Target.exact_uint16, fun _ => rfl⟩
  | uint32 => exact ⟨_, Target.exact_uint32, fun _ => rfl⟩
  | uint64 | size => exact ⟨_, Target.exact_unsigned .w64, fun _ => rfl⟩
  | int8 => exact ⟨_, Target.exact_int8, fun _ => rfl⟩
  | int16 => exact ⟨_, Target.exact_int16, fun _ => rfl⟩
  | int32 => exact ⟨_, Target.exact_int32, fun _ => rfl⟩
  | int64 | distance => exact ⟨_, Target.exact_signed .w64, fun _ => rfl⟩

theorem Reader.outcome_eq (reader : Reader) (view : View) :
    reader.outcome view = readView reader.kind view := by
  obtain ⟨toInt, exact, converts⟩ := reader.exists_exact
  rw [converts, map_parse_of_exact exact, reader.kind_target]

theorem Reader.result_outcome_some (reader : Reader) {text : Bytes}
    (nonempty : text ≠ []) :
    (reader.outcome (some text)).result = read reader.kind text := by
  rw [reader.outcome_eq, readView, Outcome.result_reading_some nonempty]

/-- Every reader accepts exactly the views that denote a number of its kind, and
answers that number; any other target accepts the ones among them that it does
not refuse to convert. -/
theorem readers_accept_denoted (view : View) :
    (∀ (reader : Reader) (number : Int),
      (reader.outcome view).result = .ok number ↔
        ∃ text ∈ view, Denotes reader.kind text number) ∧
    ∀ {α : Type u} (target : Target α) (value : α),
      (parse target view).result = .ok value ↔
        ∃ number, (∃ text ∈ view, Denotes target.kind text number) ∧
          target.ofInt? number = some value := by
  constructor
  · intro reader number
    rw [reader.outcome_eq]
    exact result_readView_eq_ok_iff reader.kind view number
  · intro α target value
    simp only [parse, Outcome.result_convert_eq_ok_iff, result_readView_eq_ok_iff]

end Integer

end NumericFields
