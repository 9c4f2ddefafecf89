import Mathlib.Data.List.Basic

/-!
Owns reads and writes that fault outside a buffer: a load or a store of some consecutive
cells is `none` unless all of them lie in the buffer. A buffer that is filled from the
front is the overlay of what was written on what it held.
-/

namespace LoraSerial.Library.CheckedBuffer

variable {α : Type}

/-- Read `count` cells from `offset` on. -/
def load (buffer : List α) (offset count : Nat) : Option (List α) :=
  if offset + count ≤ buffer.length then some ((buffer.drop offset).take count) else none

/-- Write the cells from `offset` on. -/
def store (buffer : List α) (offset : Nat) (cells : List α) : Option (List α) :=
  if offset + cells.length ≤ buffer.length then
    some (buffer.take offset ++ cells ++ buffer.drop (offset + cells.length))
  else none

/-- The buffer after its first cells were overwritten. -/
def overlay (buffer written : List α) : List α :=
  written ++ buffer.drop written.length

theorem load_eq {buffer : List α} {offset count : Nat} (inside : offset + count ≤ buffer.length) :
    load buffer offset count = some ((buffer.drop offset).take count) :=
  if_pos inside

/-- A load that stays in the front part of a buffer. -/
@[simp] theorem overlay_nil (buffer : List α) : overlay buffer [] = buffer :=
  rfl

theorem length_overlay {buffer written : List α} (fits : written.length ≤ buffer.length) :
    (overlay buffer written).length = buffer.length := by
  rw [overlay, List.length_append, List.length_drop]
  omega

theorem take_overlay (buffer written : List α) :
    (overlay buffer written).take written.length = written :=
  List.take_left

/-- What was written reads back. -/
theorem load_overlay {buffer written : List α} (fits : written.length ≤ buffer.length) :
    load (overlay buffer written) 0 written.length = some written := by
  rw [load_eq (by rw [length_overlay fits]; omega), List.drop_zero, take_overlay]

/-- Writing on where the last write ended. -/
theorem store_overlay {buffer written cells : List α}
    (fits : written.length + cells.length ≤ buffer.length) :
    store (overlay buffer written) written.length cells =
      some (overlay buffer (written ++ cells)) := by
  have whole : (overlay buffer written).length = buffer.length := length_overlay (by omega)
  rw [store, if_pos (by rw [whole]; exact fits), take_overlay]
  simp only [overlay, List.drop_append, List.drop_drop, List.length_append]
  rw [List.drop_of_length_le (by omega), List.nil_append, Nat.add_sub_cancel_left]

/-- Writing from the front. -/
theorem store_front {buffer cells : List α} (fits : cells.length ≤ buffer.length) :
    store buffer 0 cells = some (overlay buffer cells) := by
  have stored := store_overlay (show ([] : List α).length + cells.length ≤ buffer.length by simpa)
  simpa using stored

end LoraSerial.Library.CheckedBuffer
