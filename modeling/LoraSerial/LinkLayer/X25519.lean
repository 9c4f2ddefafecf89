import LoraSerial.LinkLayer.Ascon

/-!
Owns X25519: clamping, the Montgomery ladder, inversion, packing. A field element is
its value modulo 2^255 - 19; the 16-bit limbs and their carries are left out. Does not
own commutativity, which the protocols assume for the keys they use.
-/

namespace LoraSerial.LinkLayer.X25519

def prime : Nat := 2 ^ 255 - 19

def loadLe (bytes : Bytes) : Nat :=
  bytes.foldr (fun byte value => byte.toNat + 256 * value) 0

def storeLe (count value : Nat) : Bytes :=
  (List.range count).map fun index => UInt8.ofNat (value / 256 ^ index)

/-! ### Field -/

def add (left right : Nat) : Nat :=
  (left + right) % prime

def sub (left right : Nat) : Nat :=
  (left + (prime - right % prime)) % prime

def mul (left right : Nat) : Nat :=
  left * right % prime

def square (value : Nat) : Nat :=
  mul value value

/-- `c ← c²`, times the value except at the bits 4 and 2 of the exponent. -/
def invLoop (value : Nat) : Nat → Nat → Nat
  | 0, c => c
  | a + 1, c =>
      let c := square c
      invLoop value a (if a = 2 ∨ a = 4 then c else mul c value)

/-- The power `prime - 2`. -/
def inv25519 (value : Nat) : Nat :=
  invLoop value 254 value

def unpack25519 (bytes : Bytes) : Nat :=
  loadLe bytes % 2 ^ 255

def pack25519 (value : Nat) : Bytes :=
  storeLe 32 (value % prime)

/-! ### Ladder -/

structure Ladder where
  a : Nat
  b : Nat
  c : Nat
  d : Nat

/-- Swap both pairs when the bit is set. -/
def Ladder.sel (s : Ladder) (bit : Bool) : Ladder :=
  if bit then { a := s.b, b := s.a, c := s.d, d := s.c } else s

def Ladder.step (x : Nat) (bit : Bool) (s : Ladder) : Ladder :=
  let s := s.sel bit
  let e := add s.a s.c
  let a := sub s.a s.c
  let c := add s.b s.d
  let b := sub s.b s.d
  let d := square e
  let f := square a
  let a := mul c a
  let c := mul b e
  let e := add a c
  let a := sub a c
  let b := square a
  let c := sub d f
  let a := mul c 121665
  let a := add a d
  let c := mul c a
  let a := mul d f
  let d := mul b x
  let b := square e
  Ladder.sel { a := a, b := b, c := c, d := d } bit

/-- Bits `bits - 1` down to 0 of the scalar. -/
def ladder (scalar x : Nat) : Nat → Ladder → Ladder
  | 0, s => s
  | bits + 1, s => ladder scalar x bits (s.step x (scalar.testBit bits))

/-- `z[0] &= 248`, `z[31] = (z[31] & 127) | 64`. -/
def clamp (scalar : Bytes) : Bytes :=
  (scalar.modify 0 fun byte => byte &&& 248).modify 31 fun byte => (byte &&& 127) ||| 64

/-- The shared secret of a private scalar and a public u-coordinate, 32 bytes each. -/
def scalarmult (scalar point : Bytes) : Bytes :=
  let x := unpack25519 point
  let s := ladder (loadLe (clamp scalar)) x 255 { a := 1, b := x, c := 0, d := 1 }
  pack25519 (mul s.a (inv25519 s.c))

/-- The public key of a private scalar. -/
def scalarmultBase (scalar : Bytes) : Bytes :=
  scalarmult scalar (9 :: List.replicate 31 0)

@[simp] theorem length_storeLe (count value : Nat) : (storeLe count value).length = count := by
  simp [storeLe]

theorem length_scalarmult (scalar point : Bytes) : (scalarmult scalar point).length = 32 :=
  length_storeLe 32 _

/-- The vector of the repository's own test. -/
example :
    scalarmult
      [0xa5, 0x46, 0xe3, 0x6b, 0xf0, 0x52, 0x7c, 0x9d, 0x3b, 0x16, 0x15,
        0x4b, 0x82, 0x46, 0x5e, 0xdd, 0x62, 0x14, 0x4c, 0x0a, 0xc1, 0xfc,
        0x5a, 0x18, 0x50, 0x6a, 0x22, 0x44, 0xba, 0x44, 0x9a, 0xc4]
      [0xe6, 0xdb, 0x68, 0x67, 0x58, 0x30, 0x30, 0xdb, 0x35, 0x94, 0xc1,
        0xa4, 0x24, 0xb1, 0x5f, 0x7c, 0x72, 0x66, 0x24, 0xec, 0x26, 0xb3,
        0x35, 0x3b, 0x10, 0xa9, 0x03, 0xa6, 0xd0, 0xab, 0x1c, 0x4c] =
      [0xc3, 0xda, 0x55, 0x37, 0x9d, 0xe9, 0xc6, 0x90, 0x8e, 0x94, 0xea,
        0x4d, 0xf2, 0x8d, 0x08, 0x4f, 0x32, 0xec, 0xcf, 0x03, 0x49, 0x1c,
        0x71, 0xf7, 0x54, 0xb4, 0x07, 0x55, 0x77, 0xa2, 0x85, 0x52] := by
  decide +kernel

end LoraSerial.LinkLayer.X25519
