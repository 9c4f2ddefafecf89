import LoraSerial.Library.Limbs
import LoraSerial.LinkLayer.X25519
import Mathlib

/-!
Owns X25519 as the boards compute it: field elements of sixteen limbs in `int64_t`, where
every sum, difference and product may overflow. Does not own what the limbs stand for.
-/

namespace LoraSerial.LinkLayer.X25519

open Library.Limbs

/-- A field element: 16 little-endian limbs of 16 bits, until the carries are made more. -/
abbrev Gf : Type :=
  Vector Int 16

namespace Gf

/-- The numerals below are positions in a field element. -/
scoped instance instNeZeroLimbs : NeZero 16 :=
  ⟨by decide⟩

def zero : Gf :=
  Vector.replicate 16 0

def one : Gf :=
  put zero 0 1

/-- `_121665`. -/
def a24 : Gf :=
  put (put zero 0 0xDB41) 1 1

/-! ### Carries -/

/-- One round of `car25519`; the last limb's carry wraps to the first one, times 38. -/
def carry (o : Gf) (i : Fin 16) : Option Gf := do
  let o := put o i (← i64 (o.get i + 2 ^ 16))
  let c := o.get i >>> (16 : Nat)
  let less ← i64 (c - 1)
  let wrapped ← i64 (37 * less)
  let carried ← i64 (less + wrapped * if i = 15 then 1 else 0)
  let next : Fin 16 := if i < 15 then i + 1 else 0
  let o := put o next (← i64 (o.get next + carried))
  some (put o i (← i64 (o.get i - (← i64 (c * 2 ^ 16)))))

def car25519 (o : Gf) : Option Gf :=
  (List.finRange 16).foldlM carry o

/-! ### Selection -/

/-- Swap the two where `b` is 1, by masks. -/
def sel25519 (p q : Gf) (b : Int) : Gf × Gf :=
  let c := (b - 1).lnot
  let t : Gf := Vector.ofFn fun i => c.land ((p.get i).xor (q.get i))
  (Vector.ofFn fun i => (p.get i).xor (t.get i), Vector.ofFn fun i => (q.get i).xor (t.get i))

/-! ### Arithmetic -/

/-- Sixteen assignments, each to a limb of its own. -/
def assign (limb : Fin 16 → Int) : Option Gf :=
  if ∀ i, Fits (limb i) then some (Vector.ofFn limb) else none

def A (a b : Gf) : Option Gf :=
  assign fun i => a.get i + b.get i

def Z (a b : Gf) : Option Gf :=
  assign fun i => a.get i - b.get i

/-- The sum of two positions in a field element, a position in a product. -/
def position (i j : Fin 16) : Fin 31 :=
  ⟨i.val + j.val, Nat.lt_succ_of_le (Nat.add_le_add (Nat.le_of_lt_succ i.isLt)
    (Nat.le_of_lt_succ j.isLt))⟩

/-- `t[i + j] += a[i] * b[j]`. -/
def product (a b : Gf) (i : Fin 16) (t : Vector Int 31) (j : Fin 16) :
    Option (Vector Int 31) := do
  let term ← i64 (a.get i * b.get j)
  some (put t (position i j) (← i64 (t.get (position i j) + term)))

def row (a b : Gf) (t : Vector Int 31) (i : Fin 16) : Option (Vector Int 31) :=
  (List.finRange 16).foldlM (product a b i) t

/-- The 31 limbs of a product as its lower and its upper half. -/
def lower (i : Fin 16) : Fin 31 :=
  Fin.castAdd 15 i

def upper (i : Fin 15) : Fin 31 :=
  Fin.natAdd 16 i

/-- `t[i] += 38 * t[i + 16]`. -/
def fold (t : Vector Int 31) (i : Fin 15) : Option (Vector Int 31) := do
  let term ← i64 (38 * t.get (upper i))
  some (put t (lower i.castSucc) (← i64 (t.get (lower i.castSucc) + term)))

def M (a b : Gf) : Option Gf := do
  let t ← (List.finRange 16).foldlM (row a b) (Vector.replicate 31 0)
  let t ← (List.finRange 15).foldlM fold t
  let o : Gf := Vector.ofFn fun i => t.get (lower i)
  car25519 (← car25519 o)

def S (a : Gf) : Option Gf :=
  M a a

/-- `c ← c²`, times `i` except at 4 and 2. -/
def invLoop (i : Gf) : Nat → Gf → Option Gf
  | 0, c => some c
  | a + 1, c => do
      let c ← S c
      let c ← (if a ≠ 2 ∧ a ≠ 4 then M c i else some c)
      invLoop i a c

def inv25519 (i : Gf) : Option Gf :=
  invLoop i 254 i

/-! ### Bytes -/

/-- `m[i] = t[i] - 0xffff - borrow`, for the limbs 1 to 14. -/
def borrow (t m : Gf) (i : Fin 14) : Option Gf := do
  let below : Fin 16 := i.castSucc.castSucc
  let here : Fin 16 := i.castSucc.succ
  let less ← i64 (t.get here - 0xffff)
  let m := put m here (← i64 (less - (m.get below >>> (16 : Nat)) % 2))
  some (put m below (m.get below % 2 ^ 16))

/-- One of the two rounds that subtract the prime where it fits. -/
def subtract (s : Gf × Gf) : Option (Gf × Gf) := do
  let t := s.1
  let m := put s.2 0 (← i64 (t.get 0 - 0xffed))
  let m ← (List.finRange 14).foldlM (borrow t) m
  let less ← i64 (t.get 15 - 0x7fff)
  let m := put m 15 (← i64 (less - (m.get 14 >>> (16 : Nat)) % 2))
  let b := (m.get 15 >>> (16 : Nat)) % 2
  let m := put m 14 (m.get 14 % 2 ^ 16)
  some (sel25519 t m (1 - b))

/-- `t[i] & 0xff`, `t[i] >> 8`. -/
def limbBytes (limb : Int) : Bytes :=
  [UInt8.ofNat (limb % 2 ^ 8).toNat, UInt8.ofNat ((limb >>> (8 : Nat)) % 2 ^ 8).toNat]

/-- The array `m` starts unset; every limb is set before it is read. -/
def pack25519 (n : Gf) : Option Bytes := do
  let t ← car25519 (← car25519 (← car25519 n))
  let s ← subtract (← subtract (t, zero))
  some (s.1.toList.flatMap limbBytes)

def unpack25519 (n : Bytes) : Gf :=
  let o : Gf := Vector.ofFn fun i =>
    ((n.getD (2 * i) 0).toNat : Int) + (n.getD (2 * i + 1) 0).toNat * 2 ^ 8
  put o 15 (o.get 15 % 2 ^ 15)

/-! ### Ladder -/

structure Ladder where
  a : Gf
  b : Gf
  c : Gf
  d : Gf

def Ladder.sel (s : Ladder) (r : Int) : Ladder :=
  let ab := sel25519 s.a s.b r
  let cd := sel25519 s.c s.d r
  { a := ab.1, b := ab.2, c := cd.1, d := cd.2 }

/-- The body of the loop, in the source's order. -/
def Ladder.step (x : Gf) (r : Int) (s : Ladder) : Option Ladder := do
  let s := s.sel r
  let e ← A s.a s.c
  let a ← Z s.a s.c
  let c ← A s.b s.d
  let b ← Z s.b s.d
  let d ← S e
  let f ← S a
  let a ← M c a
  let c ← M b e
  let e ← A a c
  let a ← Z a c
  let b ← S a
  let c ← Z d f
  let a ← M c a24
  let a ← A a d
  let c ← M c a
  let a ← M d f
  let d ← M b x
  let b ← S e
  some (Ladder.sel { a := a, b := b, c := c, d := d } r)

/-- `(z[i >> 3] >> (i & 7)) & 1`. -/
def bit (z : Bytes) (i : Nat) : Int :=
  (((z.getD (i / 8) 0).toNat >>> (i % 8)) % 2 : Nat)

/-- Bits `bits - 1` down to 0 of the scalar. -/
def ladder (z : Bytes) (x : Gf) : Nat → Ladder → Option Ladder
  | 0, s => some s
  | bits + 1, s => do ladder z x bits (← s.step x (bit z bits))

/-- The copies of `b` and `d` that the source makes and never reads are left out. -/
def scalarmult (n p : Bytes) : Option Bytes := do
  let z := clamp n
  let x := unpack25519 p
  let s ← ladder z x 255 { a := one, b := x, c := zero, d := one }
  let inverse ← inv25519 s.c
  pack25519 (← M s.a inverse)

def scalarmultBase (n : Bytes) : Option Bytes :=
  scalarmult n (9 :: List.replicate 31 0)

end Gf

end LoraSerial.LinkLayer.X25519
