import Mathlib.Data.List.GetD

/-!
Owns the static configuration of the heatshrink coder and the block write both its halves
do on their buffers, `memcpy` and `memmove`.
-/

namespace LoraSerial.Heatshrink

/-- HEATSHRINK_STATIC_INPUT_BUFFER_SIZE -/
def inputBufferSize : Nat := 32

/-- HEATSHRINK_STATIC_WINDOW_BITS -/
def windowBits : Nat := 8

/-- HEATSHRINK_STATIC_LOOKAHEAD_BITS -/
def lookaheadBits : Nat := 4

/-- HEATSHRINK_LITERAL_MARKER -/
def literalMarker : Nat := 0x01

/-- HEATSHRINK_BACKREF_MARKER -/
def backrefMarker : Nat := 0x00

/-- `memcpy(&buffer[offset], cells, size)` -/
def write (buffer : List UInt8) (offset : Nat) (cells : List UInt8) : List UInt8 :=
  buffer.take offset ++ cells ++ buffer.drop (offset + cells.length)

section Write

variable {buffer cells : List UInt8} {offset index : Nat}

theorem length_write (fits : offset + cells.length ≤ buffer.length) :
    (write buffer offset cells).length = buffer.length := by
  simp only [write, List.length_append, List.length_take, List.length_drop]
  omega

theorem getD_write_of_lt (before : index < offset) (fits : offset ≤ buffer.length) :
    (write buffer offset cells).getD index 0 = buffer.getD index 0 := by
  rw [write, List.append_assoc,
    List.getD_append _ _ _ _ (by rw [List.length_take]; omega),
    List.getD_eq_getElem?_getD, List.getD_eq_getElem?_getD, List.getElem?_take_of_lt before]

theorem getD_write_cells (within : index < cells.length) (fits : offset ≤ buffer.length) :
    (write buffer offset cells).getD (offset + index) 0 = cells.getD index 0 := by
  have length : (buffer.take offset).length = offset := List.length_take_of_le fits
  rw [write, List.append_assoc, List.getD_append_right _ _ _ _ (by omega), length,
    Nat.add_sub_cancel_left, List.getD_append _ _ _ _ within]

theorem getD_write_of_ge (after : offset + cells.length ≤ index) (fits : offset ≤ buffer.length) :
    (write buffer offset cells).getD index 0 = buffer.getD index 0 := by
  have length : (buffer.take offset ++ cells).length = offset + cells.length := by
    rw [List.length_append, List.length_take_of_le fits]
  rw [write, List.getD_append_right _ _ _ _ (by omega), length, List.getD_eq_getElem?_getD,
    List.getD_eq_getElem?_getD, List.getElem?_drop]
  congr 2
  omega

/-- The part of the buffer up to the end of what was written. -/
theorem take_write (fits : offset ≤ buffer.length) :
    (write buffer offset cells).take (offset + cells.length) = buffer.take offset ++ cells := by
  have length : (buffer.take offset ++ cells).length = offset + cells.length := by
    rw [List.length_append, List.length_take_of_le fits]
  rw [write, List.take_left' length]

end Write

end LoraSerial.Heatshrink
