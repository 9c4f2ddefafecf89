import LoraSerial.LinkLayer.FieldProduct
import Mathlib

/-!
Owns the bytes of field elements in limbs, and with them the whole function: X25519 in
`int64_t` limbs overflows on no input and returns what the ladder over the field returns.
-/

namespace LoraSerial.LinkLayer.X25519.Gf

open Library Library.Limbs

/-! ### The ladder -/

private theorem testBit_loadLe (z : Bytes) (i : Nat) :
    (loadLe z).testBit i = (z.getD (i / 8) 0).toNat.testBit (i % 8) := by
  induction z generalizing i with
  | nil => simp [loadLe]
  | cons byte z inductionHypothesis =>
      have split : loadLe (byte :: z) = 2 ^ 8 * loadLe z + byte.toNat := Nat.add_comm _ _
      rw [split, Nat.testBit_two_pow_mul_add _ byte.toNat_lt]
      by_cases first : i < 8
      · rw [if_pos first, Nat.div_eq_of_lt first, Nat.mod_eq_of_lt first]
        rfl
      · rw [if_neg first, inductionHypothesis, show i / 8 = (i - 8) / 8 + 1 by omega,
          show i % 8 = (i - 8) % 8 by omega]
        rfl

theorem bit_eq (z : Bytes) (i : Nat) : bit z i = ((loadLe z).testBit i).toNat := by
  rw [bit, testBit_loadLe, Nat.toNat_testBit, Nat.shiftRight_eq_div_pow]

theorem ladder_holds {x : Gf} {point : Nat} (element : Holds x (2 ^ 17) point) (z : Bytes)
    (bits : Nat) {s : Gf.Ladder} {t : X25519.Ladder} (holds : s.Holds t) :
    ∃ s', ladder z x bits s = some s' ∧ s'.Holds (X25519.ladder (loadLe z) point bits t) := by
  induction bits generalizing s t with
  | zero => exact ⟨s, rfl, holds⟩
  | succ bits inductionHypothesis =>
      rcases holds.step element ((loadLe z).testBit bits) with ⟨next, ran, holds'⟩
      rcases inductionHypothesis holds' with ⟨s', ran', holds''⟩
      refine ⟨s', ?_, holds''⟩
      rw [ladder, bit_eq, ran]
      exact ran'

/-! ### Unpacking -/

private theorem loadLe_two (bytes : Bytes) :
    loadLe bytes = (bytes.getD 0 0).toNat + 256 * (bytes.getD 1 0).toNat +
      65536 * loadLe (bytes.drop 2) := by
  match bytes with
  | [] => rfl
  | [first] => simp [loadLe]
  | first :: second :: rest =>
      show first.toNat + 256 * (second.toNat + 256 * loadLe rest) =
        first.toNat + 256 * second.toNat + 65536 * loadLe rest
      ring

private theorem sum_pairs (bytes : Bytes) (n : Nat) :
    ∑ i : Fin n, ((bytes.getD (2 * i) 0).toNat + (bytes.getD (2 * i + 1) 0).toNat * 2 ^ 8) *
      2 ^ (16 * i.val) = loadLe bytes % 2 ^ (16 * n) := by
  induction n generalizing bytes with
  | zero => simp [Nat.mod_one]
  | succ n inductionHypothesis =>
      have first := (bytes.getD 0 0).toNat_lt
      have second := (bytes.getD 1 0).toNat_lt
      have each (i : Fin n) : ((bytes.getD (2 * i.succ.val) 0).toNat +
          (bytes.getD (2 * i.succ.val + 1) 0).toNat * 2 ^ 8) * 2 ^ (16 * i.succ.val) =
            2 ^ 16 * ((((bytes.drop 2).getD (2 * i) 0).toNat +
              ((bytes.drop 2).getD (2 * i + 1) 0).toNat * 2 ^ 8) * 2 ^ (16 * i.val)) := by
        have dropped (j : Nat) : (bytes.drop 2).getD j 0 = bytes.getD (2 + j) 0 := by
          rw [List.getD_eq_getElem?_getD, List.getElem?_drop, ← List.getD_eq_getElem?_getD]
        have weight : (2 : Nat) ^ (16 * i.succ.val) = 2 ^ 16 * 2 ^ (16 * i.val) := by
          rw [Fin.val_succ, Nat.mul_succ, Nat.add_comm, pow_add]
        rw [dropped, dropped, weight, show 2 + 2 * i.val = 2 * i.succ.val by simp; ring,
          show 2 + (2 * i.val + 1) = 2 * i.succ.val + 1 by simp; ring]
        ring
      have low : ((bytes.getD 0 0).toNat + 256 * (bytes.getD 1 0).toNat +
          65536 * loadLe (bytes.drop 2)) % 2 ^ 16 =
            (bytes.getD 0 0).toNat + 256 * (bytes.getD 1 0).toNat := by
        omega
      have high : ((bytes.getD 0 0).toNat + 256 * (bytes.getD 1 0).toNat +
          65536 * loadLe (bytes.drop 2)) / 2 ^ 16 = loadLe (bytes.drop 2) := by
        omega
      rw [Fin.sum_univ_succ, Finset.sum_congr rfl fun i _ => each i, ← Finset.mul_sum,
        inductionHypothesis, Nat.mul_succ, Nat.add_comm (16 * n), pow_add, Nat.mod_mul,
        loadLe_two bytes, low, high]
      refine congrArg (· + _) ?_
      show ((bytes.getD 0 0).toNat + (bytes.getD 1 0).toNat * 2 ^ 8) * 2 ^ 0 = _
      ring

/-- The sixteen limbs before the top bit is cleared. -/
private def pairs (bytes : Bytes) : Gf :=
  Vector.ofFn fun i =>
    ((bytes.getD (2 * i) 0).toNat : Int) + (bytes.getD (2 * i + 1) 0).toNat * 2 ^ 8

private theorem get_pairs (bytes : Bytes) (i : Fin 16) : (pairs bytes).get i =
    ((bytes.getD (2 * i) 0).toNat : Int) + (bytes.getD (2 * i + 1) 0).toNat * 2 ^ 8 := by
  rw [pairs, Vector.get_ofFn]

private theorem pairs_canonical (bytes : Bytes) : Canonical 16 (pairs bytes) := by
  intro i
  have first := (bytes.getD (2 * i) 0).toNat_lt
  have second := (bytes.getD (2 * i + 1) 0).toNat_lt
  rw [get_pairs]
  constructor <;> omega

private theorem value_pairs (bytes : Bytes) :
    value 16 (pairs bytes) = (loadLe bytes % 2 ^ 256 : Nat) := by
  have sums := congrArg (Nat.cast : Nat → Int) (sum_pairs bytes 16)
  rw [← sums, Nat.cast_sum]
  refine Finset.sum_congr rfl fun i _ => ?_
  rw [get_pairs]
  push_cast
  rfl

theorem unpack25519_holds (bytes : Bytes) :
    Holds (unpack25519 bytes) (2 ^ 17) (X25519.unpack25519 bytes : Nat) := by
  have top := pairs_canonical bytes 15
  have cleared (extra : Int) (low : 0 ≤ extra) (high : extra ≤ 2 ^ 15) : Canonical 16
      (put (pairs bytes) 15 ((pairs bytes).get 15 % 2 ^ 15 + extra)) := by
    intro j
    rw [get_put]
    split
    · omega
    · exact pairs_canonical bytes j
  have total (extra : Int) : value 16
      (put (pairs bytes) 15 ((pairs bytes).get 15 % 2 ^ 15 + extra)) =
        (loadLe bytes % 2 ^ 256 : Nat) +
          ((pairs bytes).get 15 % 2 ^ 15 + extra - (pairs bytes).get 15) *
            2 ^ 240 := by
    rw [value_put, value_pairs]
    rfl
  have low := (cleared 0 (by norm_num) (by norm_num)).value_nonneg
  have high := (cleared (2 ^ 15) (by norm_num) (by norm_num)).value_lt
  rw [total] at low high
  have unpacked : unpack25519 bytes =
      put (pairs bytes) 15 ((pairs bytes).get 15 % 2 ^ 15 + 0) := by
    rw [add_zero]
    rfl
  have same : value 16 (unpack25519 bytes) = (loadLe bytes % 2 ^ 255 : Nat) := by
    rw [unpacked, total]
    omega
  refine ⟨fun j => ?_, by rw [same, Int.cast_natCast]; rfl⟩
  have limb := cleared 0 (by norm_num) (by norm_num) j
  rw [← unpacked] at limb
  exact abs_le.mpr (by omega)

/-! ### Packing -/

/-- The limbs of the prime. -/
def primeLimb (j : Fin 16) : Int :=
  if j = 0 then 0xffed else if j = 15 then 0x7fff else 0xffff

/-- The difference from the prime while the borrow stands at limb `n`: the limbs above it are
not subtracted yet. -/
def difference (t m : Gf) (n : Nat) : Gf :=
  Vector.ofFn fun j => if j.val ≤ n then m.get j else t.get j - primeLimb j

structure Borrowed (t : Gf) (n : Nat) (m : Gf) : Prop where
  value : value 16 (difference t m n) = value 16 t - prime
  done : ∀ j : Fin 16, j.val < n → 0 ≤ m.get j ∧ m.get j < 2 ^ 16
  here : ∀ j : Fin 16, j.val = n → -2 ^ 16 ≤ m.get j ∧ m.get j < 2 ^ 16

private theorem get_difference (t m : Gf) (n : Nat) (j : Fin 16) :
    (difference t m n).get j = if j.val ≤ n then m.get j else t.get j - primeLimb j := by
  rw [difference, Vector.get_ofFn]

/-- The limb is subtracted, less the borrow of the limb below, which is made whole. -/
def borrowed (t m : Gf) (i : Fin 15) : Gf :=
  put (put m i.succ (t.get i.succ - primeLimb i.succ + m.get i.castSucc / 2 ^ 16)) i.castSucc
    (m.get i.castSucc % 2 ^ 16)

private theorem primeLimb_bounds (j : Fin 16) : 0 ≤ primeLimb j ∧ primeLimb j < 2 ^ 16 := by
  decide +revert

private theorem get_borrowed (t m : Gf) (i : Fin 15) (j : Fin 16) : (borrowed t m i).get j =
    if i.castSucc = j then m.get i.castSucc % 2 ^ 16
    else if i.succ = j then t.get i.succ - primeLimb i.succ + m.get i.castSucc / 2 ^ 16
    else m.get j := by
  rw [borrowed, get_put, get_put]

private theorem get_difference_borrowed (t m : Gf) (i : Fin 15) (j : Fin 16) :
    (difference t (borrowed t m i) (i + 1)).get j =
      (put (put (difference t m i) i.castSucc (m.get i.castSucc % 2 ^ 16)) i.succ
        (t.get i.succ - primeLimb i.succ + m.get i.castSucc / 2 ^ 16)).get j := by
  rw [get_difference, get_borrowed, get_put, get_put, get_difference]
  by_cases atSucc : i.succ = j
  · subst atSucc
    have apart : i.castSucc ≠ i.succ := fun same => by simp [Fin.ext_iff] at same
    rw [if_pos (by simp), if_neg apart, if_pos rfl, if_pos rfl]
  · rw [if_neg atSucc, if_neg atSucc]
    by_cases atCast : i.castSucc = j
    · subst atCast
      rw [if_pos (by simp), if_pos rfl, if_pos rfl]
    · rw [if_neg atCast, if_neg atCast]
      have differs : j.val ≠ i.val + 1 := fun same => atSucc (Fin.ext same.symm)
      by_cases below : j.val ≤ i.val
      · rw [if_pos below, if_pos (by omega)]
      · rw [if_neg below, if_neg (by omega)]

theorem Borrowed.next {t m : Gf} (canonical : Canonical 16 t) {i : Fin 15}
    (before : Borrowed t i m) : Borrowed t (i + 1) (borrowed t m i) := by
  have limits := before.here i.castSucc rfl
  have apart : i.castSucc ≠ i.succ := fun same => by simp [Fin.ext_iff] at same
  constructor
  · have weight : (2 : Int) ^ (16 * i.succ.val) = 2 ^ (16 * i.castSucc.val) * 2 ^ 16 :=
      weight_succ 16 i
    have divided := Int.mul_ediv_add_emod (m.get i.castSucc) (2 ^ 16)
    have patched := Finset.sum_congr (M := Int) rfl fun j (_ : j ∈ Finset.univ) =>
      congrArg (· * 2 ^ (16 * j.val)) (get_difference_borrowed t m i j)
    refine patched.trans ((value_put 16 _ i.succ _).trans ?_)
    rw [value_put, before.value, get_put, if_neg apart, get_difference,
      get_difference, if_pos (by simp), if_neg (by simp), weight]
    linear_combination 2 ^ (16 * i.castSucc.val) * divided
  · intro j below
    rw [get_borrowed]
    split
    · omega
    next other =>
      rw [if_neg (by rintro rfl; simp at below)]
      have differs : j.val ≠ i.val := fun same => other (Fin.ext same.symm)
      exact before.done j (by omega)
  · intro j place
    obtain rfl : j = i.succ := Fin.ext place
    rw [get_borrowed, if_neg apart, if_pos rfl]
    have limb := canonical i.succ
    have constant := primeLimb_bounds i.succ
    omega

private theorem borrow_bit {limb : Int} (limits : -2 ^ 16 ≤ limb ∧ limb < 2 ^ 16) :
    (limb >>> (16 : Nat)) % 2 = -(limb / 2 ^ 16) := by
  rw [Int.shiftRight_eq_div_pow]
  omega

private theorem primeLimb_inner (i : Fin 14) : primeLimb i.castSucc.succ = 0xffff := by
  decide +revert

theorem borrow_eq {t m : Gf} (canonical : Canonical 16 t) {i : Fin 14}
    (before : Borrowed t i m) : borrow t m i = some (borrowed t m i.castSucc) := by
  have limits := before.here i.castSucc.castSucc rfl
  have limb := canonical i.castSucc.succ
  have constant := primeLimb_inner i
  have apart : i.castSucc.castSucc ≠ i.castSucc.succ := fun same => by
    simp [Fin.ext_iff] at same
  have bit := borrow_bit limits
  have less : i64 (t.get i.castSucc.succ - 0xffff) = some (t.get i.castSucc.succ - 0xffff) :=
    i64_eq_some (by omega) (by omega)
  have whole : i64 (t.get i.castSucc.succ - 0xffff - (m.get i.castSucc.castSucc >>> (16 : Nat)) % 2) =
      some (t.get i.castSucc.succ - primeLimb i.castSucc.succ + m.get i.castSucc.castSucc / 2 ^ 16) := by
    rw [bit, constant, sub_neg_eq_add]
    exact i64_eq_some (by omega) (by omega)
  have kept := get_put_ne m apart.symm
    (t.get i.castSucc.succ - primeLimb i.castSucc.succ + m.get i.castSucc.castSucc / 2 ^ 16)
  refine (bind_of_some less _).trans ((bind_of_some whole _).trans ?_)
  exact congrArg (fun limb => some (put (put m i.castSucc.succ (t.get i.castSucc.succ -
    primeLimb i.castSucc.succ + m.get i.castSucc.castSucc / 2 ^ 16)) i.castSucc.castSucc
      (limb % 2 ^ 16))) kept

theorem Borrowed.round {t m : Gf} (canonical : Canonical 16 t) (i : Fin 14)
    (before : Borrowed t i m) : ∃ after, borrow t m i = some after ∧ Borrowed t (i + 1) after :=
  ⟨_, borrow_eq canonical before, Borrowed.next (i := i.castSucc) canonical before⟩

private theorem sum_primeLimb : ∑ j : Fin 16, primeLimb j * 2 ^ (16 * j.val) = (prime : Int) := by
  decide

theorem Borrowed.start {t : Gf} (canonical : Canonical 16 t) (m : Gf) :
    Borrowed t 0 (put m 0 (t.get 0 - 0xffed)) := by
  have first := canonical 0
  have each (j : Fin 16) :
      (difference t (put m 0 (t.get 0 - 0xffed)) 0).get j * 2 ^ (16 * j.val) =
        t.get j * 2 ^ (16 * j.val) - primeLimb j * 2 ^ (16 * j.val) := by
    rw [get_difference, get_put, ← sub_mul]
    by_cases zero : (0 : Fin 16) = j
    · subst zero
      rfl
    · rw [if_neg fun below => zero (Fin.ext (Nat.le_zero.mp below).symm)]
  constructor
  · rw [Limbs.value, Finset.sum_congr rfl fun j _ => each j, Finset.sum_sub_distrib, sum_primeLimb]
    rfl
  · exact fun j below => absurd below (Nat.not_lt_zero _)
  · intro j place
    obtain rfl : j = 0 := Fin.ext place
    rw [get_put, if_pos rfl]
    omega

/-- The rounds run through, and the sign of the last limb chooses. -/
private theorem subtract_eq {t : Gf} (canonical : Canonical 16 t) (m : Gf) :
    ∃ after, Borrowed t 15 after ∧
      subtract (t, m) = some (sel25519 t after (1 - (after.get 15 >>> (16 : Nat)) % 2)) := by
  have first := canonical 0
  have last := canonical 15
  have started : i64 (t.get 0 - 0xffed) = some (t.get 0 - 0xffed) :=
    i64_eq_some (by omega) (by omega)
  rcases forLoop (Borrowed t) (fun i _ => Borrowed.round canonical i)
    (Borrowed.start canonical m) with ⟨before, ran, borrows⟩
  refine ⟨borrowed t before 14, Borrowed.next (i := 14) canonical borrows, ?_⟩
  have below := borrows.here 14 rfl
  have less : i64 (t.get 15 - 0x7fff) = some (t.get 15 - 0x7fff) :=
    i64_eq_some (by omega) (by omega)
  have whole : i64 (t.get 15 - 0x7fff - (before.get 14 >>> (16 : Nat)) % 2) =
      some (t.get 15 - 0x7fff + before.get 14 / 2 ^ 16) := by
    rw [borrow_bit below, sub_neg_eq_add]
    exact i64_eq_some (by omega) (by omega)
  have kept := @get_put_ne _ before 15 14 (by decide)
    (t.get 15 - 0x7fff + before.get 14 / 2 ^ 16)
  have top := get_put_self before 15
    (t.get 15 - 0x7fff + before.get 14 / 2 ^ 16)
  have same : (borrowed t before 14).get 15 =
      t.get 15 - 0x7fff + before.get 14 / 2 ^ 16 := by
    rw [get_borrowed]
    rfl
  rw [same]
  refine (bind_of_some started _).trans ((bind_of_some ran _).trans ((bind_of_some less _).trans
    ((bind_of_some whole _).trans ?_)))
  dsimp only
  rw [kept, top]
  rfl

theorem Borrowed.total {t after : Gf} (borrows : Borrowed t 15 after) :
    Limbs.value 16 after = Limbs.value 16 t - prime := by
  rw [← borrows.value]
  refine Finset.sum_congr rfl fun j _ => ?_
  rw [get_difference, if_pos (Nat.le_of_lt_succ j.isLt)]

/-- Without a borrow at the end the limbs are canonical. -/
theorem Borrowed.canonical {t after : Gf} (borrows : Borrowed t 15 after)
    (nonneg : 0 ≤ after.get 15) : Canonical 16 after := by
  intro j
  by_cases last : j.val = 15
  · obtain rfl : j = 15 := Fin.ext last
    exact ⟨nonneg, (borrows.here 15 rfl).2⟩
  · exact borrows.done j (by omega)

/-- With a borrow at the end the value is below the prime. -/
theorem Borrowed.negative {t after : Gf} (borrows : Borrowed t 15 after)
    (negative : after.get 15 < 0) : Limbs.value 16 after < 0 := by
  have rest : Canonical 16 (put after 15 (2 ^ 16 - 1)) := by
    intro j
    rw [get_put]
    split
    · norm_num
    next other =>
      have differs : j.val ≠ 15 := fun same => other (Fin.ext same.symm)
      exact borrows.done j (by omega)
  have below := rest.value_lt
  rw [value_put] at below
  have weight : (2 : Int) ^ (16 * (15 : Fin 16).val) = 2 ^ 240 := rfl
  rw [weight] at below
  omega

/-- One round subtracts the prime where the value is not below it. -/
theorem subtract_spec {t : Gf} (canonical : Canonical 16 t) (m : Gf) :
    ∃ t' m', subtract (t, m) = some (t', m') ∧ Canonical 16 t' ∧
      value 16 t' = if (prime : Int) ≤ value 16 t then value 16 t - prime else value 16 t := by
  rcases subtract_eq canonical m with ⟨after, borrows, ran⟩
  have total := borrows.total
  have limits := borrows.here 15 rfl
  by_cases negative : after.get 15 < 0
  · have less := borrows.negative negative
    have choice : 1 - (after.get 15 >>> (16 : Nat)) % 2 = (false.toNat : Int) := by
      rw [borrow_bit limits]
      show _ = (0 : Int)
      omega
    rw [choice, sel25519_eq] at ran
    exact ⟨t, after, ran, canonical, by rw [if_neg (by omega)]⟩
  · have whole := borrows.canonical (not_lt.mp negative)
    have nonneg := whole.value_nonneg
    have choice : 1 - (after.get 15 >>> (16 : Nat)) % 2 = (true.toNat : Int) := by
      rw [borrow_bit limits]
      show _ = (1 : Int)
      omega
    rw [choice, sel25519_eq] at ran
    exact ⟨after, t, ran, whole, by rw [if_pos (by omega), total]⟩

/-- Once the value is close to the range, one more pass leaves canonical limbs. -/
theorem car25519_settles {o : Gf} {x : ZMod prime} (holds : Holds o (2 ^ 61) x)
    (low : -38 ≤ value 16 o) (high : value 16 o < 2 ^ 256 + 38) :
    ∃ r, car25519 o = some r ∧ Canonical 16 r ∧ ((value 16 r : Int) : ZMod prime) = x := by
  rcases car25519_spec holds.small with ⟨digits, canonical, total, ran⟩
  rcases car25519_holds holds with ⟨r, ran', holds', -⟩
  obtain rfl := Option.some.inj (ran.symm.trans ran')
  refine ⟨_, ran, fun j => ?_, holds'.field⟩
  have lowest := canonical.emod
  have digit := canonical 0
  rw [total] at lowest
  rw [get_put]
  split
  · omega
  · exact canonical j

theorem subtract_twice {t : Gf} (canonical : Canonical 16 t) :
    ∃ half s, subtract (t, zero) = some half ∧ subtract half = some s ∧ Canonical 16 s.1 ∧
      value 16 s.1 = value 16 t % prime := by
  have nonneg := canonical.value_nonneg
  have below := canonical.value_lt
  rcases subtract_spec canonical zero with ⟨once, m, ran, canonical', total⟩
  rcases subtract_spec canonical' m with ⟨twice, m', ran', canonical'', total'⟩
  refine ⟨(once, m), (twice, m'), ran, ran', canonical'', ?_⟩
  rw [total', total]
  have size : (prime : Int) = 2 ^ 255 - 19 := by norm_num [prime]
  rw [size]
  split_ifs <;> omega

private theorem loadLe_limbBytes {limb : Int} (bounds : 0 ≤ limb ∧ limb < 2 ^ 16)
    (rest : Bytes) : (loadLe (limbBytes limb ++ rest) : Int) = limb + 2 ^ 16 * loadLe rest := by
  have low : (limb % 2 ^ 8).toNat < 2 ^ 8 := by omega
  have high : ((limb >>> (8 : Nat)) % 2 ^ 8).toNat < 2 ^ 8 := by omega
  show (((UInt8.ofNat (limb % 2 ^ 8).toNat).toNat + 256 *
    ((UInt8.ofNat ((limb >>> (8 : Nat)) % 2 ^ 8).toNat).toNat + 256 * loadLe rest) : Nat) : Int) = _
  rw [UInt8.toNat_ofNat_of_lt' low, UInt8.toNat_ofNat_of_lt' high, Int.shiftRight_eq_div_pow]
  omega

private theorem loadLe_flatMap {limbs : List Int}
    (canonical : ∀ limb ∈ limbs, 0 ≤ limb ∧ limb < 2 ^ 16) :
    (loadLe (limbs.flatMap limbBytes) : Int) =
      limbs.foldr (fun limb rest => limb + 2 ^ 16 * rest) 0 := by
  induction limbs with
  | nil => rfl
  | cons limb limbs inductionHypothesis =>
      rw [List.flatMap_cons, loadLe_limbBytes (canonical limb (List.mem_cons_self ..)),
        inductionHypothesis fun other member => canonical other (.tail _ member), List.foldr_cons]

/-- The bytes of canonical limbs are the bytes of the value. -/
theorem flatMap_limbBytes {t : Gf} (canonical : Canonical 16 t) :
    t.toList.flatMap limbBytes = storeLe 32 (value 16 t).toNat := by
  have members : ∀ limb ∈ t.toList, 0 ≤ limb ∧ limb < 2 ^ 16 := by
    intro limb member
    rcases List.getElem_of_mem member with ⟨j, bound, rfl⟩
    have small : j < 16 := by simpa using bound
    have limb := canonical ⟨j, small⟩
    rwa [Vector.get_eq_getElem, ← Vector.getElem_toList] at limb
  have loaded := loadLe_flatMap members
  rw [← value_eq_foldr] at loaded
  have count : (t.toList.flatMap limbBytes).length = 32 := by
    simp [List.length_flatMap, limbBytes]
  have stored := storeLe_loadLe (t.toList.flatMap limbBytes)
  rw [count] at stored
  rw [← loaded, Int.toNat_natCast, stored]

theorem pack25519_eq {n : Gf} {v : Nat} (holds : Holds n (2 ^ 50) v) :
    pack25519 n = some (X25519.pack25519 v) := by
  have limits := abs_le.mp (abs_value_le holds.small)
  rcases car25519_holds (holds.mono (by norm_num)) with ⟨once, ran, holds', total⟩
  have quotient : |value 16 n / 2 ^ 256| ≤ 2 ^ 50 := abs_le.mpr (by omega)
  have limits' := abs_le.mp quotient
  rcases car25519_holds (holds'.mono (by omega)) with ⟨twice, ran', holds'', total'⟩
  have quotient' : |value 16 once / 2 ^ 256| ≤ 1 := abs_le.mpr (by omega)
  have limits'' := abs_le.mp quotient'
  rcases car25519_settles (holds''.mono (by omega)) (by omega) (by omega) with
    ⟨t, ran'', canonical, element⟩
  rcases subtract_twice canonical with ⟨half, s, halved, subtracted, canonical', reduced⟩
  have remainder : (value 16 s.1).toNat = v % prime := by
    have same := (ZMod.intCast_eq_intCast_iff' (value 16 t) v prime).mp
      (element.trans (Int.cast_natCast v).symm)
    rw [reduced, same, ← Int.natCast_emod, Int.toNat_natCast]
  refine (bind_of_some ran _).trans ((bind_of_some ran' _).trans ((bind_of_some ran'' _).trans
    ((bind_of_some halved _).trans ((bind_of_some subtracted _).trans ?_))))
  rw [flatMap_limbBytes canonical', remainder]
  rfl

/-! ### The whole function -/

theorem one_holds : Holds one (2 ^ 17) (1 : Nat) :=
  ⟨by decide, by rw [show value 16 one = ((1 : Nat) : Int) by decide, Int.cast_natCast]⟩

theorem zero_holds : Holds zero (2 ^ 17) (0 : Nat) :=
  ⟨by decide, by rw [show value 16 zero = ((0 : Nat) : Int) by decide, Int.cast_natCast]⟩

/-- In limbs no operation overflows, whatever the scalar and the point, and the bytes are those
of the ladder over the field. -/
theorem scalarmult_refines (n p : Bytes) : scalarmult n p = some (X25519.scalarmult n p) := by
  have element := unpack25519_holds p
  have start : Ladder.Holds { a := one, b := unpack25519 p, c := zero, d := one }
      { a := 1, b := X25519.unpack25519 p, c := 0, d := 1 } :=
    ⟨one_holds, element, zero_holds, one_holds⟩
  rcases ladder_holds element (clamp n) 255 start with ⟨s, ran, holds⟩
  rcases inv25519_holds holds.c with ⟨inverse, inverted, inverse_holds⟩
  rcases mul_holds (holds.a.mono (by norm_num)) (inverse_holds.mono (by norm_num)) with
    ⟨quotient, multiplied, quotient_holds⟩
  refine (bind_of_some ran _).trans ((bind_of_some inverted _).trans
    ((bind_of_some multiplied _).trans ?_))
  exact pack25519_eq (quotient_holds.mono (by norm_num))

end LoraSerial.LinkLayer.X25519.Gf
