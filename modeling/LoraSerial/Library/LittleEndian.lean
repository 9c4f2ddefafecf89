import Mathlib.Algebra.GroupWithZero.Nat
import Mathlib.Data.Nat.Notation

/-!
Owns the little-endian bytes of a number of fixed width, and values that are kept as such
bytes: a value comes back from its own bytes.
-/

namespace LoraSerial.Library.LittleEndian

/-- The `width` lowest bytes of a number, lowest first. -/
def storeLe : Nat → Nat → List UInt8
  | 0, _ => []
  | width + 1, value => UInt8.ofNat value :: storeLe width (value / 256)

def loadLe : List UInt8 → Nat
  | [] => 0
  | byte :: rest => byte.toNat + 256 * loadLe rest

@[simp] theorem length_storeLe (width value : Nat) : (storeLe width value).length = width := by
  induction width generalizing value with
  | zero => rfl
  | succ width inductionHypothesis => rw [storeLe, List.length_cons, inductionHypothesis]

theorem loadLe_storeLe (width value : Nat) :
    loadLe (storeLe width value) = value % 256 ^ width := by
  induction width generalizing value with
  | zero => rw [storeLe, loadLe, Nat.pow_zero, Nat.mod_one]
  | succ width inductionHypothesis =>
      rw [storeLe, loadLe, inductionHypothesis, Nat.pow_succ', Nat.mod_mul]
      rfl

/-- Values of one width. -/
structure Width (α : Type) where
  bytes : Nat
  toNat : α → Nat
  ofNat : Nat → α
  positive : 0 < bytes
  ofNat_mod : ∀ value, ofNat (toNat value % 256 ^ bytes) = value

namespace Width

variable {α : Type} (width : Width α)

def encode (value : α) : List UInt8 :=
  storeLe width.bytes (width.toNat value)

def decode (raw : List UInt8) : α :=
  width.ofNat (loadLe raw)

@[simp] theorem length_encode (value : α) : (width.encode value).length = width.bytes :=
  length_storeLe _ _

@[simp] theorem decode_encode (value : α) : width.decode (width.encode value) = value := by
  rw [decode, encode, loadLe_storeLe, width.ofNat_mod]

end Width

def uint8 : Width UInt8 where
  bytes := 1
  toNat := UInt8.toNat
  ofNat := UInt8.ofNat
  positive := by decide
  ofNat_mod value := by
    have below : value.toNat < 256 ^ 1 := value.toNat_lt
    rw [Nat.mod_eq_of_lt below, UInt8.ofNat_toNat]

def uint16 : Width UInt16 where
  bytes := 2
  toNat := UInt16.toNat
  ofNat := UInt16.ofNat
  positive := by decide
  ofNat_mod value := by
    have below : value.toNat < 256 ^ 2 := value.toNat_lt
    rw [Nat.mod_eq_of_lt below, UInt16.ofNat_toNat]

def uint32 : Width UInt32 where
  bytes := 4
  toNat := UInt32.toNat
  ofNat := UInt32.ofNat
  positive := by decide
  ofNat_mod value := by
    have below : value.toNat < 256 ^ 4 := value.toNat_lt
    rw [Nat.mod_eq_of_lt below, UInt32.ofNat_toNat]

def uint64 : Width UInt64 where
  bytes := 8
  toNat := UInt64.toNat
  ofNat := UInt64.ofNat
  positive := by decide
  ofNat_mod value := by
    have below : value.toNat < 256 ^ 8 := value.toNat_lt
    rw [Nat.mod_eq_of_lt below, UInt64.ofNat_toNat]

end LoraSerial.Library.LittleEndian
