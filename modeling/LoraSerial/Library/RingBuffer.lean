import Mathlib.Logic.Function.Basic
import Mathlib.Data.List.Basic

/-!
Owns the circular buffer with a write index, a read index and one reserved
cell: its occupancy, push and pop, and the FIFO list it stands for. A buffer is
`WellFormed` when both indices name a cell; then a push into free space appends
to the list and a pop removes its first element. Nothing here knows what the
elements are.
-/

namespace LoraSerial.Library

/-- `size` cells, the index of the next write and the index of the next read. -/
structure RingBuffer (α : Type) (size : Nat) where
  cells : Nat → α
  head : Nat
  tail : Nat

namespace RingBuffer

variable {α : Type} {size : Nat}

/-- Number of stored elements. -/
def count (ring : RingBuffer α size) : Nat :=
  (ring.head + size - ring.tail) % size

/-- Room left; one cell stays empty so that full and empty differ. -/
def free (ring : RingBuffer α size) : Nat :=
  size - 1 - ring.count

/-- Write one element and advance the write index. -/
def push (ring : RingBuffer α size) (value : α) : RingBuffer α size :=
  { ring with
    cells := Function.update ring.cells ring.head value
    head := (ring.head + 1) % size }

/-- Read the oldest element and advance the read index. -/
def pop (ring : RingBuffer α size) : α × RingBuffer α size :=
  (ring.cells ring.tail, { ring with tail := (ring.tail + 1) % size })

/-- Both indices back to cell zero. -/
def clear (ring : RingBuffer α size) : RingBuffer α size :=
  { ring with head := 0, tail := 0 }

/-- Both indices name a cell. -/
structure WellFormed (ring : RingBuffer α size) : Prop where
  head_lt : ring.head < size
  tail_lt : ring.tail < size

/-- The stored elements, oldest first. -/
def contents (ring : RingBuffer α size) : List α :=
  (List.range ring.count).map fun offset => ring.cells ((ring.tail + offset) % size)

theorem WellFormed.clear (ring : RingBuffer α size) (positive : 0 < size) :
    ring.clear.WellFormed :=
  ⟨positive, positive⟩

theorem WellFormed.push {ring : RingBuffer α size} (valid : ring.WellFormed) (value : α) :
    (ring.push value).WellFormed :=
  ⟨Nat.mod_lt _ (Nat.zero_lt_of_lt valid.head_lt), valid.tail_lt⟩

theorem WellFormed.pop {ring : RingBuffer α size} (valid : ring.WellFormed) :
    ring.pop.2.WellFormed :=
  ⟨valid.head_lt, Nat.mod_lt _ (Nat.zero_lt_of_lt valid.tail_lt)⟩

@[simp] theorem length_contents (ring : RingBuffer α size) :
    ring.contents.length = ring.count := by
  simp [contents]

@[simp] theorem count_clear (ring : RingBuffer α size) : ring.clear.count = 0 := by
  simp [count, clear]

@[simp] theorem contents_clear (ring : RingBuffer α size) : ring.clear.contents = [] := by
  rw [← List.length_eq_zero_iff, length_contents, count_clear]

theorem WellFormed.count_lt {ring : RingBuffer α size} (valid : ring.WellFormed) :
    ring.count < size :=
  Nat.mod_lt _ (Nat.zero_lt_of_lt valid.head_lt)

/-- The two shapes of the occupancy: the run either ends before the last cell
or wraps once. -/
theorem WellFormed.count_cases {ring : RingBuffer α size} (valid : ring.WellFormed) :
    (ring.tail ≤ ring.head ∧ ring.count = ring.head - ring.tail) ∨
      (ring.head < ring.tail ∧ ring.count = ring.head + size - ring.tail) := by
  have headBelow := valid.head_lt
  have tailBelow := valid.tail_lt
  unfold count
  by_cases ordered : ring.tail ≤ ring.head
  · refine Or.inl ⟨ordered, ?_⟩
    rw [show ring.head + size - ring.tail = (ring.head - ring.tail) + size by omega,
      Nat.add_mod_right, Nat.mod_eq_of_lt (by omega)]
  · exact Or.inr ⟨by omega, Nat.mod_eq_of_lt (by omega)⟩

private theorem succ_mod_cases {index : Nat} (below : index < size) :
    (index + 1 < size ∧ (index + 1) % size = index + 1) ∨
      (index + 1 = size ∧ (index + 1) % size = 0) := by
  by_cases last : index + 1 = size
  · exact Or.inr ⟨last, by rw [last, Nat.mod_self]⟩
  · exact Or.inl ⟨by omega, Nat.mod_eq_of_lt (by omega)⟩

private theorem add_mod_cases {start offset : Nat} (below : start < size)
    (short : offset < size) :
    (start + offset < size ∧ (start + offset) % size = start + offset) ∨
      (size ≤ start + offset ∧ (start + offset) % size = start + offset - size) := by
  by_cases wraps : start + offset < size
  · exact Or.inl ⟨wraps, Nat.mod_eq_of_lt wraps⟩
  · refine Or.inr ⟨by omega, ?_⟩
    rw [Nat.mod_eq_sub_mod (by omega), Nat.mod_eq_of_lt (by omega)]

/-- The write index is free exactly when advancing it does not meet the read
index. -/
theorem WellFormed.free_pos_iff {ring : RingBuffer α size} (valid : ring.WellFormed) :
    0 < ring.free ↔ (ring.head + 1) % size ≠ ring.tail := by
  have headBelow := valid.head_lt
  have tailBelow := valid.tail_lt
  unfold free
  rcases valid.count_cases with ⟨ordered, occupancy⟩ | ⟨ordered, occupancy⟩ <;>
    rcases succ_mod_cases valid.head_lt with ⟨inside, next⟩ | ⟨last, next⟩ <;>
    rw [occupancy, next] <;> omega

theorem WellFormed.count_push {ring : RingBuffer α size} (valid : ring.WellFormed)
    (room : 0 < ring.free) (value : α) : (ring.push value).count = ring.count + 1 := by
  have headBelow := valid.head_lt
  have tailBelow := valid.tail_lt
  have pushed : (ring.push value).head = (ring.head + 1) % size := rfl
  have kept : (ring.push value).tail = ring.tail := rfl
  unfold free at room
  rcases valid.count_cases with ⟨ordered, occupancy⟩ | ⟨ordered, occupancy⟩ <;>
    rcases (valid.push value).count_cases with ⟨ordered', occupancy'⟩ | ⟨ordered', occupancy'⟩ <;>
    rcases succ_mod_cases valid.head_lt with ⟨inside, next⟩ | ⟨last, next⟩ <;>
    omega

theorem WellFormed.free_push {ring : RingBuffer α size} (valid : ring.WellFormed)
    (room : 0 < ring.free) (value : α) : (ring.push value).free = ring.free - 1 := by
  unfold free
  rw [valid.count_push room value]
  omega

/-- A stored element is never in the cell of the next write. -/
theorem WellFormed.ne_head {ring : RingBuffer α size} (valid : ring.WellFormed) {offset : Nat}
    (stored : offset < ring.count) : (ring.tail + offset) % size ≠ ring.head := by
  have headBelow := valid.head_lt
  have tailBelow := valid.tail_lt
  have bounded := valid.count_lt
  rcases valid.count_cases with ⟨ordered, occupancy⟩ | ⟨ordered, occupancy⟩ <;>
    rcases add_mod_cases tailBelow (Nat.lt_trans stored bounded) with
      ⟨inside, position⟩ | ⟨wraps, position⟩ <;>
    omega

/-- Pushing what the next cell holds only moves the write index. -/
theorem push_cells_head (ring : RingBuffer α size) :
    ring.push (ring.cells ring.head) = { ring with head := (ring.head + 1) % size } := by
  rw [push, Function.update_eq_self]

/-- What the cell of the next write holds is no part of the queue. -/
theorem WellFormed.contents_congr {ring : RingBuffer α size} (valid : ring.WellFormed)
    {cells : Nat → α} (agree : ∀ index, index ≠ ring.head → cells index = ring.cells index) :
    ({ ring with cells := cells } : RingBuffer α size).contents = ring.contents := by
  apply List.map_congr_left
  intro offset member
  exact agree _ (valid.ne_head (List.mem_range.mp member))

/-- A push into free space appends to the queue. -/
theorem WellFormed.contents_push {ring : RingBuffer α size} (valid : ring.WellFormed)
    (room : 0 < ring.free) (value : α) :
    (ring.push value).contents = ring.contents ++ [value] := by
  have headBelow := valid.head_lt
  have tailBelow := valid.tail_lt
  have bounded := valid.count_lt
  have lands : (ring.tail + ring.count) % size = ring.head := by
    rcases valid.count_cases with ⟨ordered, occupancy⟩ | ⟨ordered, occupancy⟩ <;>
      rcases add_mod_cases tailBelow bounded with ⟨inside, position⟩ | ⟨wraps, position⟩ <;>
      omega
  unfold contents
  rw [valid.count_push room value, List.range_succ, List.map_append, List.map_singleton]
  congr 1
  · apply List.map_congr_left
    intro offset member
    exact Function.update_of_ne (valid.ne_head (List.mem_range.mp member)) _ _
  · change [Function.update ring.cells ring.head value ((ring.tail + ring.count) % size)] = [value]
    rw [lands, Function.update_self]

theorem WellFormed.count_pop {ring : RingBuffer α size} (valid : ring.WellFormed)
    (nonempty : 0 < ring.count) : ring.pop.2.count = ring.count - 1 := by
  have headBelow := valid.head_lt
  have tailBelow := valid.tail_lt
  have kept : ring.pop.2.head = ring.head := rfl
  have popped : ring.pop.2.tail = (ring.tail + 1) % size := rfl
  rcases valid.count_cases with ⟨ordered, occupancy⟩ | ⟨ordered, occupancy⟩ <;>
    rcases valid.pop.count_cases with ⟨ordered', occupancy'⟩ | ⟨ordered', occupancy'⟩ <;>
    rcases succ_mod_cases valid.tail_lt with ⟨inside, next⟩ | ⟨last, next⟩ <;>
    omega

/-- A pop from a nonempty buffer removes the front of the queue. -/
theorem WellFormed.contents_pop {ring : RingBuffer α size} (valid : ring.WellFormed)
    (nonempty : 0 < ring.count) :
    ring.contents = ring.pop.1 :: ring.pop.2.contents := by
  unfold contents
  rw [valid.count_pop nonempty]
  obtain ⟨rest, occupancy⟩ : ∃ rest, ring.count = rest + 1 := ⟨ring.count - 1, by omega⟩
  rw [occupancy, Nat.add_sub_cancel, List.range_succ_eq_map, List.map_cons, List.map_map]
  congr 1
  · change ring.cells ((ring.tail + 0) % size) = ring.cells ring.tail
    rw [Nat.add_zero, Nat.mod_eq_of_lt valid.tail_lt]
  · apply List.map_congr_left
    intro offset _
    change ring.cells ((ring.tail + (offset + 1)) % size) =
      ring.cells (((ring.tail + 1) % size + offset) % size)
    rw [Nat.mod_add_mod, Nat.add_assoc, Nat.add_comm 1 offset]

/-! ### Runs of cells -/

/-- Write a run of values that ends at or before the last cell. -/
def copyIn (ring : RingBuffer α size) (values : List α) : RingBuffer α size :=
  { ring with
    cells := fun index =>
      if ring.head ≤ index then values.getD (index - ring.head) (ring.cells index)
      else ring.cells index
    head := (ring.head + values.length) % size }

/-- One push after the other. -/
def pushAll (ring : RingBuffer α size) (values : List α) : RingBuffer α size :=
  values.foldl push ring

/-- The readable run up to the write index or the last cell. -/
def front (ring : RingBuffer α size) : List α :=
  (List.range (if ring.tail ≤ ring.head then ring.head - ring.tail else size - ring.tail)).map
    fun offset => ring.cells (ring.tail + offset)

/-- Advance the read index past `n` elements. -/
def drop (ring : RingBuffer α size) (n : Nat) : RingBuffer α size :=
  { ring with tail := (ring.tail + n) % size }

theorem WellFormed.pushAll {ring : RingBuffer α size} (valid : ring.WellFormed)
    (values : List α) : (ring.pushAll values).WellFormed := by
  induction values generalizing ring with
  | nil => exact valid
  | cons value rest inductionHypothesis => exact inductionHypothesis (valid.push value)

theorem WellFormed.drop {ring : RingBuffer α size} (valid : ring.WellFormed) (n : Nat) :
    (ring.drop n).WellFormed :=
  ⟨valid.head_lt, Nat.mod_lt _ (Nat.zero_lt_of_lt valid.tail_lt)⟩

/-- Copying a run writes its first value and copies the rest behind it. -/
theorem WellFormed.copyIn_cons {ring : RingBuffer α size} (valid : ring.WellFormed) {value : α}
    {rest : List α} (inside : ring.head + (rest.length + 1) ≤ size) :
    ring.copyIn (value :: rest) = (ring.push value).copyIn rest := by
  rcases succ_mod_cases valid.head_lt with ⟨-, next⟩ | ⟨last, next⟩
  · simp only [copyIn, RingBuffer.push, next, List.length_cons]
    congr 1
    · funext index
      rcases Nat.lt_trichotomy index ring.head with before | rfl | after
      · rw [if_neg (by omega), if_neg (by omega), Function.update_of_ne (by omega)]
      · rw [if_pos (Nat.le_refl _), if_neg (by omega), Nat.sub_self, Function.update_self]
        rfl
      · rw [if_pos (by omega), if_pos (by omega), Function.update_of_ne (by omega),
          show index - ring.head = (index - (ring.head + 1)) + 1 by omega, List.getD_cons_succ]
    · congr 1
      omega
  · obtain rfl : rest = [] := List.length_eq_zero_iff.mp (by omega)
    simp only [copyIn, RingBuffer.push, next, List.length_singleton, List.length_nil, Nat.add_zero]
    congr 1
    · funext index
      by_cases here : index = ring.head
      · subst here
        simp
      · rw [Function.update_of_ne here]
        split
        · rw [show index - ring.head = (index - ring.head - 1) + 1 by omega]
          simp
        · simp

/-- Copying a run is pushing its values. -/
theorem WellFormed.copyIn_eq {ring : RingBuffer α size} (valid : ring.WellFormed)
    {values : List α} (inside : ring.head + values.length ≤ size) :
    ring.copyIn values = ring.pushAll values := by
  induction values generalizing ring with
  | nil => simp [copyIn, RingBuffer.pushAll, Nat.mod_eq_of_lt valid.head_lt]
  | cons value rest inductionHypothesis =>
      rw [List.length_cons] at inside
      rw [valid.copyIn_cons inside, RingBuffer.pushAll, List.foldl_cons]
      rcases succ_mod_cases valid.head_lt with ⟨-, next⟩ | ⟨last, next⟩
      · exact inductionHypothesis (valid.push value) (by
          rw [show (ring.push value).head = (ring.head + 1) % size from rfl, next]
          omega)
      · obtain rfl : rest = [] := List.length_eq_zero_iff.mp (by omega)
        exact inductionHypothesis (valid.push value) (by
          rw [show (ring.push value).head = (ring.head + 1) % size from rfl, next]
          simp)

/-- Values that fit are appended to the queue. -/
theorem WellFormed.contents_pushAll {ring : RingBuffer α size} (valid : ring.WellFormed)
    {values : List α} (room : values.length ≤ ring.free) :
    (ring.pushAll values).contents = ring.contents ++ values := by
  induction values generalizing ring with
  | nil => simp [RingBuffer.pushAll]
  | cons value rest inductionHypothesis =>
      rw [List.length_cons] at room
      have later : rest.length ≤ (ring.push value).free := by
        rw [valid.free_push (by omega)]
        omega
      rw [RingBuffer.pushAll, List.foldl_cons]
      exact (inductionHypothesis (valid.push value) later).trans (by
        rw [valid.contents_push (by omega), List.append_assoc, List.singleton_append])

/-- The front run is a prefix of the queue. -/
theorem WellFormed.front_eq {ring : RingBuffer α size} (valid : ring.WellFormed) :
    ring.front = ring.contents.take ring.front.length := by
  have headBelow := valid.head_lt
  have tailBelow := valid.tail_lt
  have length : ring.front.length ≤ ring.count ∧ ring.tail + ring.front.length ≤ size := by
    unfold front
    rw [List.length_map, List.length_range]
    rcases valid.count_cases with ⟨ordered, occupancy⟩ | ⟨ordered, occupancy⟩
    · rw [if_pos ordered]
      omega
    · rw [if_neg (by omega)]
      omega
  apply List.ext_getElem
  · rw [List.length_take, length_contents]
    omega
  · intro index below _
    rw [List.getElem_take]
    simp only [front, contents, List.getElem_map, List.getElem_range]
    rw [Nat.mod_eq_of_lt (by omega)]

theorem WellFormed.front_nonempty {ring : RingBuffer α size} (valid : ring.WellFormed)
    (nonempty : 0 < ring.count) : 0 < ring.front.length := by
  have headBelow := valid.head_lt
  have tailBelow := valid.tail_lt
  unfold front
  rw [List.length_map, List.length_range]
  rcases valid.count_cases with ⟨ordered, occupancy⟩ | ⟨ordered, occupancy⟩
  · rw [if_pos ordered]
    omega
  · rw [if_neg (by omega)]
    omega

/-- Advancing removes the oldest elements. -/
theorem WellFormed.contents_drop {ring : RingBuffer α size} (valid : ring.WellFormed) {n : Nat}
    (stored : n ≤ ring.count) : (ring.drop n).contents = ring.contents.drop n := by
  induction n generalizing ring with
  | zero =>
      have same : ring.drop 0 = ring := by
        simp [RingBuffer.drop, Nat.mod_eq_of_lt valid.tail_lt]
      rw [same, List.drop_zero]
  | succ n inductionHypothesis =>
      have popped : ring.drop (n + 1) = ring.pop.2.drop n := by
        simp only [RingBuffer.drop, RingBuffer.pop, Nat.mod_add_mod]
        rw [Nat.add_assoc, Nat.add_comm 1 n]
      rw [popped, inductionHypothesis valid.pop (by rw [valid.count_pop (by omega)]; omega),
        valid.contents_pop (by omega), List.drop_succ_cons]

end RingBuffer

end LoraSerial.Library
