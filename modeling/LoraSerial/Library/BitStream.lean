import Mathlib.Data.Nat.Bitwise
import Mathlib.Data.List.GetD
import Mathlib.Data.List.Induction
import Mathlib.Tactic.Ring

/-!
Owns bit streams over bytes, most significant bit first: `field` writes a number with a
fixed width, `value` reads one back, `bits` is the stream a list of bytes carries. A byte
that is being written holds its bits in front of zeros, and a mask names the next free one.
-/

namespace LoraSerial.Library.BitStream

/-- The low `width` bits of a number. -/
def field : (width n : Nat) → List Bool
  | 0, _ => []
  | width + 1, n => n.testBit width :: field width n

/-- The number some bits spell. -/
def value (stream : List Bool) : Nat :=
  stream.foldl (fun sum bit => 2 * sum + bit.toNat) 0

def byteBits (byte : UInt8) : List Bool :=
  field 8 byte.toNat

def bits (bytes : List UInt8) : List Bool :=
  bytes.flatMap byteBits

/-! ## Fields and their values -/

@[simp] theorem length_field (width n : Nat) : (field width n).length = width := by
  induction width with
  | zero => rfl
  | succ width inductionHypothesis => rw [field, List.length_cons, inductionHypothesis]

@[simp] theorem take_field (width n : Nat) : (field width n).take width = field width n :=
  List.take_of_length_le (Nat.le_of_eq (length_field width n))

theorem getElem_field {width n index : Nat} (below : index < (field width n).length) :
    (field width n)[index] = n.testBit (width - 1 - index) := by
  induction width generalizing index with
  | zero => simp at below
  | succ width inductionHypothesis =>
      cases index with
      | zero => rfl
      | succ index =>
          simp only [field, List.getElem_cons_succ, inductionHypothesis]
          congr 1
          omega

/-- The top bit of a number below `2 ^ (width + 1)`, split off. -/
private theorem mod_two_pow_top (n width : Nat) :
    n % 2 ^ (width + 1) = (n.testBit width).toNat * 2 ^ width + n % 2 ^ width := by
  rw [Nat.mod_pow_succ, Nat.toNat_testBit]
  ring

private theorem foldl_field (width n sum : Nat) :
    (field width n).foldl (fun sum bit => 2 * sum + bit.toNat) sum =
      sum * 2 ^ width + n % 2 ^ width := by
  induction width generalizing sum with
  | zero => simp [field, Nat.mod_one]
  | succ width inductionHypothesis =>
      rw [field, List.foldl_cons, inductionHypothesis, mod_two_pow_top, Nat.pow_succ]
      ring

/-- Reading back what was written. -/
theorem value_field {width n : Nat} (below : n < 2 ^ width) : value (field width n) = n := by
  rw [value, foldl_field, Nat.zero_mul, Nat.zero_add, Nat.mod_eq_of_lt below]

private theorem foldl_lt (stream : List Bool) (sum : Nat) :
    stream.foldl (fun sum bit => 2 * sum + bit.toNat) sum < (sum + 1) * 2 ^ stream.length := by
  induction stream generalizing sum with
  | nil => simp
  | cons bit rest inductionHypothesis =>
      have bound := inductionHypothesis (2 * sum + bit.toNat)
      have single : bit.toNat ≤ 1 := Bool.toNat_le bit
      rw [List.foldl_cons, List.length_cons, Nat.pow_succ]
      calc _ < (2 * sum + bit.toNat + 1) * 2 ^ rest.length := bound
        _ ≤ (2 * (sum + 1)) * 2 ^ rest.length := Nat.mul_le_mul_right _ (by omega)
        _ = (sum + 1) * (2 ^ rest.length * 2) := by ring

theorem value_lt (stream : List Bool) : value stream < 2 ^ stream.length := by
  simpa [value] using foldl_lt stream 0

/-! ## Bytes -/

@[simp] theorem length_byteBits (byte : UInt8) : (byteBits byte).length = 8 :=
  length_field 8 byte.toNat

@[simp] theorem bits_nil : bits [] = [] :=
  rfl

@[simp] theorem bits_cons (byte : UInt8) (rest : List UInt8) :
    bits (byte :: rest) = byteBits byte ++ bits rest :=
  List.flatMap_cons

@[simp] theorem bits_append (left right : List UInt8) :
    bits (left ++ right) = bits left ++ bits right :=
  List.flatMap_append

@[simp] theorem length_bits (bytes : List UInt8) : (bits bytes).length = 8 * bytes.length := by
  induction bytes with
  | nil => rfl
  | cons byte rest inductionHypothesis =>
      rw [bits_cons, List.length_append, length_byteBits, inductionHypothesis, List.length_cons]
      omega

theorem value_byteBits (byte : UInt8) : value (byteBits byte) = byte.toNat :=
  value_field byte.toNat_lt

/-- Eight bits read as a byte. -/
theorem ofNat_value_byteBits (byte : UInt8) : UInt8.ofNat (value (byteBits byte)) = byte := by
  rw [value_byteBits, UInt8.ofNat_toNat]

/-- Different bytes have different bits. -/
theorem bits_injective {left right : List UInt8} (same : bits left = bits right) :
    left = right := by
  induction left generalizing right with
  | nil =>
      have length := congrArg List.length same
      rw [bits_nil, List.length_nil, length_bits] at length
      exact (List.length_eq_zero_iff.mp (by omega)).symm
  | cons byte rest inductionHypothesis =>
      cases right with
      | nil =>
          have length := congrArg List.length same
          rw [length_bits, List.length_cons, bits_nil, List.length_nil] at length
          omega
      | cons other others =>
          rw [bits_cons, bits_cons] at same
          rcases List.append_inj same (by simp) with ⟨first, others⟩
          rw [inductionHypothesis others, ← ofNat_value_byteBits byte, first,
            ofNat_value_byteBits]

/-- Bytes whose bits begin others' bits begin the bytes. -/
theorem prefix_of_bits {left right : List UInt8} (begins : bits left <+: bits right) :
    left <+: right := by
  have shorter := begins.length_le
  rw [length_bits, length_bits] at shorter
  have cut : bits (right.take left.length) <+: bits right := by
    refine ⟨bits (right.drop left.length), ?_⟩
    rw [← bits_append, List.take_append_drop]
  have same : (bits left).length = (bits (right.take left.length)).length := by
    rw [length_bits, length_bits, List.length_take]
    omega
  have equal : bits left = bits (right.take left.length) :=
    (List.prefix_of_prefix_length_le begins cut same.le).eq_of_length same
  rw [bits_injective equal]
  exact List.take_prefix _ _

/-! ## Reading a byte bit by bit -/

/-- Testing a byte against the mask of its bit `index`. -/
theorem and_two_pow_ne_zero (n index : Nat) : (n &&& 2 ^ index ≠ 0) ↔ n.testBit index = true := by
  rw [Nat.and_two_pow]
  cases n.testBit index <;> simp

/-! ## Writing a byte bit by bit -/

/-- A byte that holds `pending` in front of zeros, and the mask of its first free bit. -/
structure Holds (pending : List Bool) (byte : UInt8) (mask : Nat) : Prop where
  short : pending.length < 8
  byte_eq : byteBits byte = pending ++ List.replicate (8 - pending.length) false
  mask_eq : mask = 2 ^ (7 - pending.length)

namespace Holds

variable {pending : List Bool} {byte : UInt8} {mask : Nat}

theorem empty : Holds [] 0 0x80 where
  short := by decide
  byte_eq := by decide
  mask_eq := by decide

private theorem testBit_setBit (holds : Holds pending byte mask) (bit : Bool) (index : Nat) :
    (if bit then byte ||| UInt8.ofNat mask else byte).toNat.testBit index =
      (byte.toNat.testBit index || (bit && decide (index = 7 - pending.length))) := by
  have small : mask % 2 ^ 8 = 2 ^ (7 - pending.length) := by
    rw [holds.mask_eq, Nat.mod_eq_of_lt]
    exact Nat.pow_lt_pow_right (by decide) (by have := holds.short; omega)
  cases bit with
  | false => simp
  | true =>
      simp only [if_true, UInt8.toNat_or, UInt8.toNat_ofNat', small, Nat.testBit_or,
        Nat.testBit_two_pow, Bool.true_and]
      congr 1
      simp [eq_comm]

/-- Writing the next bit. -/
theorem setBit (holds : Holds pending byte mask) (bit : Bool) :
    byteBits (if bit then byte ||| UInt8.ofNat mask else byte) =
      pending ++ [bit] ++ List.replicate (7 - pending.length) false := by
  have short := holds.short
  have before : ∀ index, index < 8 → some (byte.toNat.testBit (7 - index)) =
      (pending ++ List.replicate (8 - pending.length) false)[index]? := by
    intro index below
    rw [← holds.byte_eq, byteBits,
      List.getElem?_eq_getElem (by rw [length_field]; exact below), getElem_field]
  apply List.ext_getElem?
  intro index
  by_cases below : index < 8
  · rw [byteBits, List.getElem?_eq_getElem (by rw [length_field]; exact below), getElem_field,
      testBit_setBit holds, show 8 - 1 - index = 7 - index by omega]
    have bitBefore := before index below
    rcases Nat.lt_trichotomy index pending.length with written | next | free
    · rw [List.append_assoc, List.getElem?_append_left written]
      rw [List.getElem?_append_left written] at bitBefore
      rw [← bitBefore, decide_eq_false (show ¬7 - index = 7 - pending.length by omega),
        Bool.and_false, Bool.or_false]
    · subst next
      simp only [List.append_assoc, List.getElem?_append_right (Nat.le_refl _), Nat.sub_self,
        List.getElem?_replicate] at bitBefore ⊢
      rw [if_pos (by omega)] at bitBefore
      simp [Option.some.inj bitBefore]
    · rw [List.getElem?_append_right (by omega), List.getElem?_replicate, if_pos (by omega)]
        at bitBefore
      rw [List.getElem?_append_right (by simp; omega), List.getElem?_replicate,
        if_pos (by simp; omega), Option.some.inj bitBefore,
        decide_eq_false (show ¬7 - index = 7 - pending.length by omega)]
      simp
  · rw [List.getElem?_eq_none (by rw [length_byteBits]; omega),
      List.getElem?_eq_none (by simp; omega)]

/-- The mask moves on to the next bit, and is 0 after the last one. -/
theorem half_mask (holds : Holds pending byte mask) :
    mask >>> 1 = if pending.length = 7 then 0 else 2 ^ (7 - (pending.length + 1)) := by
  have short := holds.short
  rw [holds.mask_eq, Nat.shiftRight_one]
  split
  next last => rw [last]; rfl
  next notLast =>
    rw [show 7 - pending.length = 7 - (pending.length + 1) + 1 by omega, Nat.pow_succ,
      Nat.mul_div_cancel _ (by decide)]

end Holds

/-- Bits written one after the other: the whole bytes, and the byte they stop in. -/
private theorem exists_holds (stream : List Bool) : ∃ bytes pending byte mask,
    Holds pending byte mask ∧ bits bytes ++ pending = stream := by
  induction stream using List.reverseRecOn with
  | nil => exact ⟨[], [], 0, 0x80, Holds.empty, rfl⟩
  | append_singleton stream bit inductionHypothesis =>
      rcases inductionHypothesis with ⟨bytes, pending, byte, mask, holds, written⟩
      have next := holds.setBit bit
      by_cases last : pending.length = 7
      · refine ⟨bytes ++ [if bit then byte ||| UInt8.ofNat mask else byte], [], 0, 0x80,
          Holds.empty, ?_⟩
        rw [last, List.replicate_zero, List.append_nil] at next
        rw [bits_append, bits_cons, bits_nil, next, ← written]
        simp
      · have short := holds.short
        refine ⟨bytes, pending ++ [bit], if bit then byte ||| UInt8.ofNat mask else byte, _,
          ⟨?_, ?_, rfl⟩, ?_⟩
        · rw [List.length_append, List.length_singleton]
          omega
        · rw [next, List.length_append, List.length_singleton]
          congr 2
          omega
        · rw [← List.append_assoc, written]

/-- Any bits are the front of some bytes, with less than a byte of padding. -/
theorem exists_bytes (stream : List Bool) : ∃ bytes padding,
    padding < 8 ∧ bits bytes = stream ++ List.replicate padding false := by
  rcases exists_holds stream with ⟨bytes, pending, byte, mask, holds, written⟩
  by_cases whole : pending = []
  · refine ⟨bytes, 0, by decide, ?_⟩
    rw [← written, whole]
    simp
  · have short := holds.short
    have positive := List.length_pos_iff.mpr whole
    refine ⟨bytes ++ [byte], 8 - pending.length, by omega, ?_⟩
    rw [bits_append, bits_cons, bits_nil, holds.byte_eq, ← written]
    simp

end LoraSerial.Library.BitStream
