import LoraSerial.Library.LittleEndian
import LoraSerial.Library.MontgomeryCurve
import LoraSerial.LinkLayer.X25519
import Mathlib.FieldTheory.Finite.Basic
import Mathlib.NumberTheory.LucasPrimality
import Mathlib.Tactic.NormNum.Prime
import Mathlib.Tactic.ReduceModChar

/-!
Owns what X25519 computes: the x-coordinate of a multiple on the curve
y² = x³ + 486662 x² + x over the field of 2^255 - 19 elements. So two key pairs agree on one
shared secret. Does not own the limbs, nor that the secret is hard to find.
-/

namespace LoraSerial.LinkLayer.X25519

open Library Library.MontgomeryCurve

/-! ### The field -/

/-- Lucas's test, with the primes that divide `p - 1`. -/
private theorem prime_of_factors {p : Nat} (witness : ZMod p) (factors : List Nat)
    (primes : ∀ factor ∈ factors, factor.Prime) (product : factors.prod = p - 1)
    (full : witness ^ (p - 1) = 1)
    (parts : ∀ factor ∈ factors, witness ^ ((p - 1) / factor) ≠ 1) : p.Prime := by
  refine lucas_primality p witness full fun q prime divides => ?_
  rw [← product] at divides
  rcases (Prime.dvd_prod_iff prime.prime).mp divides with ⟨factor, member, divides'⟩
  obtain rfl := (Nat.prime_dvd_prime_iff_eq prime (primes factor member)).mp divides'
  exact parts q member

private theorem prime_2773320623 : Nat.Prime 2773320623 := by
  refine prime_of_factors 5 [2, 2437, 569003] ?_ (by norm_num) ?_ ?_
  · intro factor member
    fin_cases member <;> norm_num
  · norm_num
    reduce_mod_char
  · intro factor member
    fin_cases member <;> norm_num <;> reduce_mod_char <;> decide

private theorem prime_72106336199 : Nat.Prime 72106336199 := by
  refine prime_of_factors 7 [2, 13, 2773320623] ?_ (by norm_num) ?_ ?_
  · intro factor member
    fin_cases member <;> first | exact prime_2773320623 | norm_num
  · norm_num
    reduce_mod_char
  · intro factor member
    fin_cases member <;> norm_num <;> reduce_mod_char <;> decide

private theorem prime_1919519569386763 : Nat.Prime 1919519569386763 := by
  refine prime_of_factors 2 [2, 3, 7, 19, 47, 47, 127, 8574133] ?_ (by norm_num) ?_ ?_
  · intro factor member
    fin_cases member <;> norm_num
  · norm_num
    reduce_mod_char
  · intro factor member
    fin_cases member <;> norm_num <;> reduce_mod_char <;> decide

private theorem prime_31757755568855353 : Nat.Prime 31757755568855353 := by
  refine prime_of_factors 10 [2, 2, 2, 3, 31, 107, 223, 4153, 430751] ?_ (by norm_num) ?_ ?_
  · intro factor member
    fin_cases member <;> norm_num
  · norm_num
    reduce_mod_char
  · intro factor member
    fin_cases member <;> norm_num <;> reduce_mod_char <;> decide

private theorem prime_75445702479781427272750846543864801 :
    Nat.Prime 75445702479781427272750846543864801 := by
  refine prime_of_factors 7
    [2, 2, 2, 2, 2, 3, 3, 5, 5, 75707, 72106336199, 1919519569386763] ?_ (by norm_num) ?_ ?_
  · intro factor member
    fin_cases member <;>
      first | exact prime_72106336199 | exact prime_1919519569386763 | norm_num
  · norm_num
    reduce_mod_char
  · intro factor member
    fin_cases member <;> norm_num <;> reduce_mod_char <;> decide

private theorem prime_of_p :
    Nat.Prime 74058212732561358302231226437062788676166966415465897661863160754340907 := by
  refine prime_of_factors 2
    [2, 3, 353, 57467, 132049, 1923133, 31757755568855353,
      75445702479781427272750846543864801] ?_ (by norm_num) ?_ ?_
  · intro factor member
    fin_cases member <;>
      first
      | exact prime_31757755568855353
      | exact prime_75445702479781427272750846543864801
      | norm_num
  · norm_num
    reduce_mod_char
  · intro factor member
    fin_cases member <;> norm_num <;> reduce_mod_char <;> decide

theorem prime_prime : Nat.Prime prime := by
  refine prime_of_factors (p := 2 ^ 255 - 19) 2
    [2, 2, 3, 65147,
      74058212732561358302231226437062788676166966415465897661863160754340907]
    ?_ (by norm_num) ?_ ?_
  · intro factor member
    fin_cases member <;> first | exact prime_of_p | norm_num
  · norm_num
    reduce_mod_char
  · intro factor member
    fin_cases member <;> norm_num <;> reduce_mod_char <;> decide

instance : Fact (Nat.Prime prime) :=
  ⟨prime_prime⟩

@[simp] theorem cast_add (left right : Nat) :
    (add left right : ZMod prime) = left + right := by
  rw [add, ZMod.natCast_mod, Nat.cast_add]

@[simp] theorem cast_sub (left right : Nat) :
    (sub left right : ZMod prime) = left - right := by
  have below : right % prime ≤ prime := (Nat.mod_lt _ prime_prime.pos).le
  rw [sub, ZMod.natCast_mod, Nat.cast_add, Nat.cast_sub below, ZMod.natCast_mod,
    ZMod.natCast_self, zero_sub, sub_eq_add_neg]

@[simp] theorem cast_mul (left right : Nat) :
    (mul left right : ZMod prime) = left * right := by
  rw [mul, ZMod.natCast_mod, Nat.cast_mul]

@[simp] theorem cast_square (value : Nat) : (square value : ZMod prime) = (value : ZMod prime) ^ 2 := by
  rw [square, cast_mul, sq]

/-! ### Inversion -/

/-- The exponent that the loop builds, as the loop itself does. -/
private def exponent : Nat → Nat → Nat
  | 0, e => e
  | a + 1, e => exponent a (if a = 2 ∨ a = 4 then 2 * e else 2 * e + 1)

private theorem cast_invLoop (value a c e : Nat) (power : (c : ZMod prime) = (value : ZMod prime) ^ e) :
    (invLoop value a c : ZMod prime) = (value : ZMod prime) ^ exponent a e := by
  induction a generalizing c e with
  | zero => exact power
  | succ a inductionHypothesis =>
      rw [invLoop, exponent]
      refine inductionHypothesis _ _ ?_
      by_cases skipped : a = 2 ∨ a = 4
      · rw [if_pos skipped, if_pos skipped, cast_square, power, ← pow_mul, mul_comm]
      · rw [if_neg skipped, if_neg skipped, cast_mul, cast_square, power, ← pow_mul, pow_succ,
          mul_comm e]

private theorem exponent_ones (n e : Nat) :
    exponent (n + 5) e = exponent 5 ((e + 1) * 2 ^ n - 1) := by
  induction n generalizing e with
  | zero => rw [pow_zero, mul_one, Nat.add_sub_cancel]
  | succ n inductionHypothesis =>
      rw [show n + 1 + 5 = n + 5 + 1 by omega, exponent, if_neg (by omega), inductionHypothesis,
        pow_succ']
      congr 2
      ring

private theorem exponent_eq : exponent 254 1 = prime - 2 := by
  have last (e : Nat) : exponent 5 e = 32 * e + 11 := by
    simp only [exponent]
    norm_num
    ring
  rw [show 254 = 249 + 5 by norm_num, exponent_ones, last, prime]
  norm_num

/-- The power `prime - 2` is the inverse, and zero for zero. -/
theorem cast_inv25519 (value : Nat) :
    (inv25519 value : ZMod prime) = (value : ZMod prime)⁻¹ := by
  have loop := cast_invLoop value 254 value 1 (pow_one _).symm
  rw [inv25519, loop, exponent_eq]
  by_cases zero : (value : ZMod prime) = 0
  · rw [zero, inv_zero, zero_pow (by decide)]
  · refine eq_inv_of_mul_eq_one_left ?_
    rw [← pow_succ]
    exact ZMod.pow_card_sub_one_eq_one zero

/-! ### The ladder -/

/-- The four field elements of a ladder, in the field. -/
def Ladder.rungs (s : Ladder) : Rungs (ZMod prime) :=
  { a := s.a, b := s.b, c := s.c, d := s.d }

private theorem rungs_sel (s : Ladder) (bit : Bool) : (s.sel bit).rungs = s.rungs.sel bit := by
  cases bit <;> rfl

private theorem rungs_step (x : Nat) (bit : Bool) (s : Ladder) :
    (s.step x bit).rungs = s.rungs.step 121665 (x : ZMod prime) bit := by
  rw [Ladder.step, rungs_sel, Rungs.step]
  congr 1
  rw [← rungs_sel, Rungs.advance]
  simp [Ladder.rungs]

private theorem rungs_ladder (scalar x bits : Nat) (s : Ladder) :
    (ladder scalar x bits s).rungs =
      Library.MontgomeryCurve.ladder 121665 (x : ZMod prime) scalar bits s.rungs := by
  induction bits generalizing s with
  | zero => rfl
  | succ bits inductionHypothesis =>
      rw [ladder, inductionHypothesis, rungs_step, Library.MontgomeryCurve.ladder]

theorem smooth : Smooth (486662 : ZMod prime) where
  two := by decide
  distinct := by decide

theorem constant : 4 * (121665 : ZMod prime) = 486662 - 2 := by
  norm_num

/-- The scalar that the ladder multiplies by. -/
def multiplier (scalar : Bytes) : Nat :=
  loadLe (clamp scalar)

theorem scalarmult_eq (scalar point : Bytes) :
    scalarmult scalar point =
      storeLe 32 (multiply (121665 : ZMod prime) 255 (multiplier scalar)
        (unpack25519 point : ZMod prime)).val := by
  have ladders := rungs_ladder (multiplier scalar) (unpack25519 point) 255
    { a := 1, b := unpack25519 point, c := 0, d := 1 }
  have start : Ladder.rungs { a := 1, b := unpack25519 point, c := 0, d := 1 } =
      Rungs.first (unpack25519 point : ZMod prime) := by
    simp [Ladder.rungs, Rungs.first]
  rw [start] at ladders
  rw [scalarmult, pack25519, multiply, ← ladders, ← ZMod.val_natCast, cast_mul, cast_inv25519]
  rfl

private theorem loadLe_eq (bytes : Bytes) : loadLe bytes = LittleEndian.loadLe bytes := by
  induction bytes with
  | nil => rfl
  | cons byte bytes inductionHypothesis =>
      rw [LittleEndian.loadLe, ← inductionHypothesis]
      rfl

private theorem storeLe_eq (count value : Nat) :
    storeLe count value = LittleEndian.storeLe count value := by
  induction count generalizing value with
  | zero => rfl
  | succ count inductionHypothesis =>
      rw [LittleEndian.storeLe, ← inductionHypothesis, storeLe, storeLe, List.range_succ_eq_map]
      simp [Function.comp_def, pow_succ', Nat.div_div_eq_div_mul]

theorem loadLe_storeLe (count value : Nat) :
    loadLe (storeLe count value) = value % 256 ^ count := by
  rw [loadLe_eq, storeLe_eq, LittleEndian.loadLe_storeLe]

theorem storeLe_loadLe (bytes : Bytes) : storeLe bytes.length (loadLe bytes) = bytes := by
  rw [storeLe_eq]
  induction bytes with
  | nil => rfl
  | cons byte bytes inductionHypothesis =>
      have small := byte.toNat_lt
      have low : UInt8.ofNat (byte.toNat + 256 * loadLe bytes) = byte := by
        refine UInt8.toNat_inj.mp ?_
        rw [UInt8.toNat_ofNat']
        omega
      have high : (byte.toNat + 256 * loadLe bytes) / 256 = loadLe bytes := by
        omega
      show UInt8.ofNat (byte.toNat + 256 * loadLe bytes) ::
        LittleEndian.storeLe bytes.length ((byte.toNat + 256 * loadLe bytes) / 256) = _
      rw [low, high, inductionHypothesis]

/-- What one multiplication packs, the next one unpacks. -/
theorem unpack25519_storeLe (value : ZMod prime) :
    unpack25519 (storeLe 32 value.val) = value.val := by
  have below : value.val < prime := value.val_lt
  have small : prime < 2 ^ 255 := by decide
  rw [unpack25519, loadLe_storeLe, Nat.mod_eq_of_lt (a := value.val) (by omega),
    Nat.mod_eq_of_lt (by omega)]

/-- The field closed under square roots, where every x-coordinate has its points. -/
abbrev Closure : Type :=
  AlgebraicClosure (ZMod prime)

theorem smooth_closure : Smooth (486662 : Closure) := by
  rw [← map_ofNat (algebraMap (ZMod prime) Closure)]
  exact smooth.map _

open Classical in
/-- X25519 multiplies: above every u-coordinate there is a point of the curve, and for every
scalar the result is the x-coordinate of that multiple of the point, zero at infinity. -/
theorem scalarmult_multiplies (point : Bytes) :
    ∃ base : (curve (486662 : Closure)).Point, xOf base = (unpack25519 point : Closure) ∧
      ∀ scalar, (unpack25519 (scalarmult scalar point) : Closure) =
        xOf ((multiplier scalar % 2 ^ 255) • base) := by
  rcases exists_xOf smooth_closure (unpack25519 point : Closure) with ⟨base, above⟩
  have constant' := map_constant (algebraMap (ZMod prime) Closure) constant
  rw [map_ofNat, map_ofNat] at constant'
  refine ⟨base, above, fun scalar => ?_⟩
  have multiple := map_multiply (algebraMap (ZMod prime) Closure) 121665 255 (multiplier scalar)
    (unpack25519 point)
  rw [map_ofNat, map_natCast, ← above, multiply_xOf smooth_closure constant' base (by decide)]
    at multiple
  rw [← multiple, scalarmult_eq, unpack25519_storeLe, ← map_natCast (algebraMap (ZMod prime) _),
    ZMod.natCast_val, ZMod.cast_id]

/-- X25519 commutes: for any two scalars and any point, on the curve or on its twist. -/
theorem scalarmult_comm (first second point : Bytes) :
    scalarmult first (scalarmult second point) = scalarmult second (scalarmult first point) := by
  simp only [scalarmult_eq, unpack25519_storeLe, ZMod.natCast_val, ZMod.cast_id]
  rw [multiply_comm smooth constant (by decide)]

end LoraSerial.LinkLayer.X25519
