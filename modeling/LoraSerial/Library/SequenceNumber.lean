/-!
Owns 8-bit sequence numbers as truncations of unbounded ones. Two unbounded
numbers closer than one lap of the 8-bit space are told apart by their
truncations, and the truncated difference is the true distance, forwards or
backwards. Protocol invariants supply the closeness; nothing here knows a
protocol.
-/

namespace LoraSerial.Library.SequenceNumber

theorem ofNat_succ (value : Nat) : UInt8.ofNat (value + 1) = UInt8.ofNat value + 1 := by
  apply UInt8.toNat_inj.mp
  simp [UInt8.toNat_ofNat']

theorem ofNat_add (left right : Nat) :
    UInt8.ofNat (left + right) = UInt8.ofNat left + UInt8.ofNat right := by
  apply UInt8.toNat_inj.mp
  simp [UInt8.toNat_ofNat']

theorem ofNat_eq_iff (left right : Nat) :
    UInt8.ofNat left = UInt8.ofNat right ↔ left % 256 = right % 256 := by
  rw [← UInt8.toNat_inj]
  simp [UInt8.toNat_ofNat']

/-- Numbers closer than one lap with the same truncation are equal. -/
theorem ofNat_inj_of_near {left right : Nat} (same : UInt8.ofNat left = UInt8.ofNat right)
    (above : left < right + 256) (below : right < left + 256) : left = right := by
  have residues := (ofNat_eq_iff left right).mp same
  omega

theorem toNat_sub (left right : Nat) :
    (UInt8.ofNat left - UInt8.ofNat right).toNat = (256 + left % 256 - right % 256) % 256 := by
  rw [UInt8.toNat_sub, UInt8.toNat_ofNat', UInt8.toNat_ofNat']
  omega

/-- The truncated difference of a number at most one lap ahead is the distance. -/
theorem toNat_sub_of_le {left right : Nat} (ordered : right ≤ left)
    (near : left < right + 256) :
    (UInt8.ofNat left - UInt8.ofNat right).toNat = left - right := by
  rw [toNat_sub]
  omega

/-- The truncated difference of a number behind is one lap less the distance. -/
theorem toNat_sub_of_lt {left right : Nat} (ordered : left < right)
    (near : right < left + 256) :
    (UInt8.ofNat left - UInt8.ofNat right).toNat = 256 - (right - left) := by
  rw [toNat_sub]
  omega

/-- Moving the origin one step towards another number shortens the distance. -/
theorem toNat_sub_succ {value origin : UInt8} (different : value ≠ origin) :
    (value - (origin + 1)).toNat + 1 = (value - origin).toNat := by
  have valueBelow := value.toNat_lt
  have originBelow := origin.toNat_lt
  have apart : value.toNat ≠ origin.toNat := fun same => different (UInt8.toNat_inj.mp same)
  rw [UInt8.toNat_sub, UInt8.toNat_sub, UInt8.toNat_add, UInt8.toNat_one]
  omega

end LoraSerial.Library.SequenceNumber
