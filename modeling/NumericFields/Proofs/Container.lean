import Mathlib.Data.List.TakeWhile
import Mathlib.Tactic
import NumericFields.Container
import NumericFields.Proofs.Records
import NumericFields.Proofs.Cursor

/-!
# Containers of the same text agree

A fixed buffer is searched for its first zero, memory at an address is measured up to
it, and a text kept with its zero is cut off one byte before its end.  All three are
left with what a buffer holds before its first zero, and whatever lies behind the zero
has no part in it.

Text without a zero byte can be kept in every container: as it is, closed by a zero,
in a buffer or at an address with anything behind the zero, or as a window into a
message.  Each of them shows just the text, however often it is wrapped, and a
conversion answers and records the same whichever it is given.
-/

namespace NumericFields

/-! ## The longest text without a zero byte -/

namespace Terminated

def ZeroFree (text : Bytes) : Prop := ∀ byte ∈ text, byte ≠ 0

instance (text : Bytes) : Decidable (ZeroFree text) :=
  List.decidableBAll (· ≠ 0) text

structure LongestZeroFree (buffer text : Bytes) : Prop where
  isPrefix : text <+: buffer
  zeroFree : ZeroFree text
  longest : ∀ other, other <+: buffer → ZeroFree other → other.length ≤ text.length

/-- The text at the front of memory together with the zero that ends it. -/
def closedFront (memory : Bytes) : Bytes := memory.take (measure memory + 1)

theorem ofBuffer_eq_takeWhile (buffer : Bytes) :
    ofBuffer buffer = buffer.takeWhile (· != 0) := by
  rw [ofBuffer]
  induction buffer with
  | nil => rfl
  | cons byte rest ih =>
      rw [List.findIdx?_cons, List.takeWhile_cons]
      by_cases zero : byte = 0
      · simp [zero]
      · rw [← ih]
        cases rest.findIdx? (· == 0) <;> simp [zero]

theorem ofMemory_eq_takeWhile (memory : Bytes) :
    ofMemory memory = memory.takeWhile (· != 0) := by
  rw [ofMemory]
  induction memory with
  | nil => rfl
  | cons byte rest ih =>
      rw [measure, List.takeWhile_cons]
      by_cases zero : byte = 0
      · simp [zero]
      · simp [zero, ih]

theorem ofMemory_eq_ofBuffer (memory : Bytes) : ofMemory memory = ofBuffer memory := by
  rw [ofMemory_eq_takeWhile, ofBuffer_eq_takeWhile]

/-! ## Text in front of a zero -/

section ZeroFree

variable {text : Bytes}

theorem ZeroFree.bne (free : ZeroFree text) : ∀ byte ∈ text, (byte != 0) = true :=
  fun byte mem => bne_iff_ne.mpr (free byte mem)

theorem ofBuffer_of_zeroFree (free : ZeroFree text) : ofBuffer text = text := by
  rw [ofBuffer_eq_takeWhile, List.takeWhile_eq_self_iff]
  exact free.bne

theorem ofBuffer_append_zero (free : ZeroFree text) (junk : Bytes) :
    ofBuffer (text ++ 0 :: junk) = text := by
  rw [ofBuffer_eq_takeWhile, List.takeWhile_append_of_pos free.bne]
  simp

theorem measure_append_zero (free : ZeroFree text) (junk : Bytes) :
    measure (text ++ 0 :: junk) = text.length := by
  induction text with
  | nil => rfl
  | cons byte rest ih =>
      have nonzero : (byte == 0) = false := beq_false_of_ne (free byte List.mem_cons_self)
      rw [List.cons_append, measure, nonzero, if_neg Bool.false_ne_true,
        ih fun other mem => free other (List.mem_cons_of_mem _ mem), List.length_cons]

theorem closedFront_append_zero (free : ZeroFree text) (junk : Bytes) :
    closedFront (text ++ 0 :: junk) = close text := by
  rw [closedFront, measure_append_zero free, close, List.append_cons]
  exact List.take_left' (by simp)

end ZeroFree

/-! ## The front of a buffer -/

theorem zeroFree_ofBuffer (buffer : Bytes) : ZeroFree (ofBuffer buffer) := by
  intro byte mem
  rw [ofBuffer_eq_takeWhile] at mem
  exact bne_iff_ne.mp (List.all_eq_true.mp List.all_takeWhile byte mem)

theorem longest_ofBuffer (buffer : Bytes) : LongestZeroFree buffer (ofBuffer buffer) where
  isPrefix := by
    rw [ofBuffer_eq_takeWhile]
    exact List.takeWhile_prefix _
  zeroFree := zeroFree_ofBuffer buffer
  longest := by
    rintro other ⟨rest, rfl⟩ free
    rw [ofBuffer_eq_takeWhile, List.takeWhile_append_of_pos free.bne, List.length_append]
    omega

theorem exists_rest_of_append_zero (buffer junk : Bytes) :
    ∃ rest, buffer ++ 0 :: junk = ofBuffer buffer ++ 0 :: rest := by
  induction buffer with
  | nil => exact ⟨junk, rfl⟩
  | cons byte buffer ih =>
      rw [ofBuffer_eq_takeWhile] at ih ⊢
      by_cases zero : byte = 0
      · subst zero
        exact ⟨buffer ++ 0 :: junk, by simp⟩
      · obtain ⟨rest, split⟩ := ih
        exact ⟨rest, by simp [zero, split]⟩

end Terminated

/-! ## Containers -/

namespace Container

/-- The containers that a text is kept in. -/
inductive Holds (text : Bytes) : Container → Prop
  | block : Holds text (.block text)
  | string {content : String} (encoded : content.toUTF8.toList = text) :
      Holds text (.string content)
  | closed : Holds text (.closed (Terminated.close text))
  | closedFront (junk : Bytes) :
      Holds text (.closed (Terminated.closedFront (text ++ 0 :: junk)))
  | buffer : Holds text (.buffer text)
  | terminated (junk : Bytes) : Holds text (.buffer (text ++ 0 :: junk))
  | address (junk : Bytes) : Holds text (.address (text ++ 0 :: junk))
  | window (before after : Bytes)
      (addressable : Addressable (before ++ (text ++ after))) :
      Holds text (.window ⟨before ++ (text ++ after), .ofNat before.length,
        .ofNat text.length⟩)
  | present {inner : Container} (holds : Holds text inner) : Holds text (.present inner)
  | shared {inner : Container} (holds : Holds text inner) : Holds text (.shared inner)

structure Agree (first second : Container) : Prop where
  view : first.view = second.view
  reader : ∀ reader : Integer.Reader,
    reader.outcome first.view = reader.outcome second.view
  integer : ∀ {α : Type u} (target : Integer.Target α),
    Integer.parse target first.view = Integer.parse target second.view
  floating : ∀ {α : Type u} (target : Floating.Target α),
    Floating.parse target first.view = Floating.parse target second.view
  decoder : ∀ decoder : Wire.Decoder,
    decoder.outcome first.view = decoder.outcome second.view

theorem agree_of_view {first second : Container} (same : first.view = second.view) :
    Agree.{u} first second where
  view := same
  reader _ := by rw [same]
  integer _ := by rw [same]
  floating _ := by rw [same]
  decoder _ := by rw [same]

theorem view_closed_close (text : Bytes) :
    (closed (Terminated.close text)).view = some text := by
  rw [view, Terminated.close, List.dropLast_concat]

theorem view_of_holds {text : Bytes} (free : Terminated.ZeroFree text)
    {container : Container} (holds : Holds text container) :
    container.view = some text := by
  induction holds with
  | block => rfl
  | string encoded => rw [view, encoded]
  | closed => exact view_closed_close text
  | closedFront junk => rw [Terminated.closedFront_append_zero free, view_closed_close]
  | buffer => rw [view, Terminated.ofBuffer_of_zeroFree free]
  | terminated junk => rw [view, Terminated.ofBuffer_append_zero free]
  | address junk =>
      rw [view, Terminated.ofMemory_eq_ofBuffer, Terminated.ofBuffer_append_zero free]
  | window before after addressable => exact Window.view_middle addressable
  | present _ ih => exact ih
  | shared _ ih => exact ih

theorem holds_of_append_zero (buffer junk : Bytes) :
    Holds (Terminated.ofBuffer buffer) (.address (buffer ++ 0 :: junk)) ∧
      Holds (Terminated.ofBuffer buffer)
        (.closed (Terminated.closedFront (buffer ++ 0 :: junk))) := by
  obtain ⟨rest, split⟩ := Terminated.exists_rest_of_append_zero buffer junk
  rw [split]
  exact ⟨.address rest, .closedFront rest⟩

end Container

open Container in
/-- Text without a zero is the same in every container that it is kept in.  Any buffer
shows its longest front without a zero, as memory does where the buffer is closed by a
zero, and closing that front again changes nothing. -/
theorem containers_of_text_agree :
    (∀ text, Terminated.ZeroFree text → ∀ container, Holds text container →
      container.view = some text ∧ Agree.{u} container (.block text)) ∧
    ∀ buffer, ∃ text, (Container.buffer buffer).view = some text ∧
      Terminated.LongestZeroFree buffer text ∧
      ∀ junk, Agree.{u} (.address (buffer ++ 0 :: junk)) (.buffer buffer) ∧
        Agree.{u} (.closed (Terminated.closedFront (buffer ++ 0 :: junk)))
          (.buffer buffer) ∧
        Agree.{u} (.buffer (text ++ 0 :: junk)) (.buffer buffer) := by
  refine ⟨fun text free container holds => ?_, fun buffer => ?_⟩
  · have shown := view_of_holds free holds
    exact ⟨shown, agree_of_view shown⟩
  · have free := Terminated.zeroFree_ofBuffer buffer
    refine ⟨_, rfl, Terminated.longest_ofBuffer buffer, fun junk => ?_⟩
    obtain ⟨inMemory, keptClosed⟩ := holds_of_append_zero buffer junk
    exact ⟨agree_of_view (view_of_holds free inMemory),
      agree_of_view (view_of_holds free keptClosed),
      agree_of_view (view_of_holds free (.terminated junk))⟩

open Container in
theorem wrapped_window_shows_text :
    let text : Bytes := [0x34, 0x32]
    let window : Container := .present (.shared (.window ⟨[0x31, 0x34, 0x32, 0x33], 1, 2⟩))
    Terminated.ZeroFree text ∧ Holds text window ∧ window.view = some text ∧
      Agree.{0} (.buffer (text ++ 0 :: [0x37])) (.block text) ∧
      (Integer.Reader.uint8.outcome window.view).result = .ok 42 := by
  have free : Terminated.ZeroFree [0x34, 0x32] := by decide
  have holds : Holds [0x34, 0x32]
      (.present (.shared (.window ⟨[0x31, 0x34, 0x32, 0x33], 1, 2⟩))) :=
    .present (.shared (.window [0x31] [0x33] (by decide)))
  have agree := containers_of_text_agree.1 _ free
  refine ⟨free, holds, (agree _ holds).1, (agree _ (.terminated [0x37])).2, ?_⟩
  rw [(agree _ holds).2.reader]
  rfl

end NumericFields
