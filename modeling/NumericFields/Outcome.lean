import NumericFields.Text.Escape

/-!
# Failures, records and outcomes

A conversion sees a run of bytes of known length, or null.  It answers with a
value or a failure, together with the diagnostic records written on the way:
`reject` writes the failure and an excerpt of the viewed bytes.  Nothing reads
the records back, so they are a plain list beside the result.  To callers that
speak of system errors a failure becomes a `SystemError`: a broad category with
the failure itself as the source of the message.
-/

namespace NumericFields

/-! ## Failures -/

inductive Failure where
  /-- The view is null, empty, or too short for the field. -/
  | invalidInput
  /-- A byte outside the accepted grammar. -/
  | nonNumeric (byte : UInt8)
  /-- The value, or the weight of one of its digits, does not fit the target. -/
  | overflow
  /-- Memory for an encoded field was refused. -/
  | allocation
  deriving DecidableEq, Repr

namespace Failure

def message : Failure → String
  | .invalidInput => "Null, empty, or truncated input."
  | .nonNumeric byte =>
      "Non-numeric data found: '" ++ String.ofList (Escape.encodeByte byte) ++ "'"
  | .overflow => "Numeric overflow."
  | .allocation => "Failed to allocate output buffer."

inductive Category where
  | invalidInput
  | invalidData
  | outOfMemory
  deriving DecidableEq, Repr

def category : Failure → Category
  | .invalidInput => .invalidInput
  | .nonNumeric _ | .overflow => .invalidData
  | .allocation => .outOfMemory

end Failure

structure SystemError where
  category : Failure.Category
  source : Failure
  deriving DecidableEq, Repr

def Failure.toSystemError (failure : Failure) : SystemError :=
  ⟨failure.category, failure⟩

def SystemError.message (error : SystemError) : String := error.source.message

@[simp] theorem Failure.message_toSystemError (failure : Failure) :
    failure.toSystemError.message = failure.message := rfl

/-! ## Views, records and outcomes -/

/-- The viewed bytes; `none` is the null view. -/
abbrev View := Option Bytes

structure Record where
  failure : Failure
  input : View
  deriving DecidableEq, Repr

namespace Record

def inputText : View → List Char
  | some bytes =>
      Char.ofNat 0x22 ::
        (Excerpt.text .diagnostic bytes ++ [Char.ofNat 0x22])
  | none => "null".toList

def text (record : Record) : String :=
  record.failure.message ++ " \x7binput = " ++
    String.ofList (inputText record.input) ++ "\x7d"

/-- The level that failures are recorded at. -/
def level : String := "DEBUG"

def line (record : Record) : String := level ++ ": " ++ record.text

end Record

structure Outcome (α : Type u) where
  result : Except Failure α
  log : List Record

namespace Outcome

variable {α : Type u} {β : Type v}

def success (value : α) : Outcome α := ⟨.ok value, []⟩

def reject (failure : Failure) (input : View) : Outcome α :=
  ⟨.error failure, [⟨failure, input⟩]⟩

def ofExcept (input : View) : Except Failure α → Outcome α
  | .ok value => success value
  | .error failure => reject failure input

def reading (view : View) (read : Bytes → Except Failure α) : Outcome α :=
  match view with
  | none | some [] => reject .invalidInput view
  | some (first :: rest) => ofExcept view (read (first :: rest))

/-- Hands the value to a last conversion, which overflows where it refuses.
The refusal itself writes no record. -/
def convert (toTarget? : α → Option β) (outcome : Outcome α) : Outcome β where
  result :=
    match outcome.result with
    | .ok value => (toTarget? value).elim (.error .overflow) .ok
    | .error failure => .error failure
  log := outcome.log

@[simp] theorem result_success (value : α) : (success value).result = .ok value := rfl

@[simp] theorem log_success (value : α) : (success value).log = [] := rfl

@[simp] theorem result_reject (failure : Failure) (input : View) :
    (reject failure input : Outcome α).result = .error failure := rfl

@[simp] theorem log_reject (failure : Failure) (input : View) :
    (reject failure input : Outcome α).log = [⟨failure, input⟩] := rfl

@[simp] theorem result_ofExcept (input : View) (result : Except Failure α) :
    (ofExcept input result).result = result := by
  cases result <;> rfl

theorem result_reading_some {text : Bytes} (nonempty : text ≠ [])
    (read : Bytes → Except Failure α) :
    (reading (some text) read).result = read text := by
  cases text with
  | nil => contradiction
  | cons first rest => exact result_ofExcept ..

theorem result_convert_eq_ok_iff (toTarget? : α → Option β) (outcome : Outcome α)
    (value : β) :
    (outcome.convert toTarget?).result = .ok value ↔
      ∃ source, outcome.result = .ok source ∧ toTarget? source = some value := by
  rcases outcome with ⟨failure | source, log⟩
  · simp [convert]
  · cases converted : toTarget? source <;> simp [convert, converted]

theorem result_convert_eq_error_iff (toTarget? : α → Option β) (outcome : Outcome α)
    (failure : Failure) :
    (outcome.convert toTarget?).result = .error failure ↔
      outcome.result = .error failure ∨
        failure = .overflow ∧
          ∃ source, outcome.result = .ok source ∧ toTarget? source = none := by
  rcases outcome with ⟨failed | source, log⟩
  · simp [convert]
  · cases converted : toTarget? source <;> simp [convert, converted, eq_comm]

@[simp] theorem log_convert (toTarget? : α → Option β) (outcome : Outcome α) :
    (outcome.convert toTarget?).log = outcome.log := rfl

end Outcome

end NumericFields
