import LoraSerial.LinkLayer.FieldLimbs
import LoraSerial.LinkLayer.Curve25519
import Mathlib

/-!
Owns the arithmetic of field elements in limbs: no operation overflows, and each computes
the field operation on what the limbs stand for. Does not own bytes.
-/

namespace LoraSerial.LinkLayer.X25519.Gf

open Library.Limbs

/-! ### Carries -/

private theorem succ_ne {i : Fin 16} (inner : i < 15) : i ≠ i + 1 := by
  decide +revert

private theorem put_put_put (o : Gf) {i next : Fin 16} (differ : i ≠ next)
    (first second third : Int) :
    put (put (put o i first) next second) i third = put (put o next second) i third := by
  rw [put_comm o differ, put_put]

/-- One round takes the limb's carry to the next limb, or 38 times to the first one. -/
theorem carry_eq {o : Gf} {i next : Fin 16} {factor : Int}
    (place : i < 15 ∧ next = i + 1 ∧ factor = 1 ∨ i = 15 ∧ next = 0 ∧ factor = 38)
    (here : |o.get i| ≤ 2 ^ 62) (there : |o.get next| ≤ 2 ^ 61) :
    carry o i =
      some (put (put o next (o.get next + factor * (o.get i / 2 ^ 16))) i (o.get i % 2 ^ 16)) := by
  rcases abs_le.mp here with ⟨low, high⟩
  rcases abs_le.mp there with ⟨low', high'⟩
  have differ : i ≠ next := by
    rcases place with ⟨inner, rfl, -⟩ | ⟨rfl, rfl, -⟩
    · exact succ_ne inner
    · decide
  have chosen : (if i < 15 then i + 1 else 0) = next := by
    rcases place with ⟨inner, rfl, -⟩ | ⟨rfl, rfl, -⟩
    · exact if_pos inner
    · rfl
  have shifted : (o.get i + 2 ^ 16) >>> (16 : Nat) = o.get i / 2 ^ 16 + 1 := by
    rw [Int.shiftRight_eq_div_pow]
    omega
  have factored : o.get i / 2 ^ 16 + 1 - 1 +
      37 * (o.get i / 2 ^ 16 + 1 - 1) * (if i = 15 then 1 else 0) =
        factor * (o.get i / 2 ^ 16) := by
    rcases place with ⟨inner, -, rfl⟩ | ⟨rfl, -, rfl⟩
    · rw [if_neg (by rintro rfl; exact absurd inner (by decide))]
      ring
    · rw [if_pos rfl]
      ring
  have scaled : -2 ^ 52 ≤ factor * (o.get i / 2 ^ 16) ∧ factor * (o.get i / 2 ^ 16) ≤ 2 ^ 52 := by
    rcases place with ⟨-, -, rfl⟩ | ⟨-, -, rfl⟩ <;> omega
  have kept : o.get i + 2 ^ 16 - (o.get i / 2 ^ 16 + 1) * 2 ^ 16 = o.get i % 2 ^ 16 := by
    omega
  have first : i64 (o.get i + 2 ^ 16) = some (o.get i + 2 ^ 16) := i64_eq_some (by omega) (by omega)
  have others (limb : Int) : (put o i limb).get next = o.get next := get_put_ne o differ limb
  have itself (first second : Int) : (put (put o i first) next second).get i = first := by
    rw [get_put_ne _ differ.symm, get_put_self]
  simp (disch := omega) only [carry, chosen, first, Option.bind_eq_bind, i64_eq_some,
    Option.bind_some, get_put_self, others, itself, shifted, put_put_put o differ,
    factored, kept]

/-- What fifteen rounds keep: the value, and the limbs below are without carries. -/
structure Carried (o₀ : Gf) (n : Nat) (o : Gf) : Prop where
  value : value 16 o = value 16 o₀
  done : ∀ j : Fin 16, j.val < n → 0 ≤ o.get j ∧ o.get j < 2 ^ 16
  here : ∀ j : Fin 16, j.val = n → |o.get j| ≤ 2 ^ 61 + 2 ^ 46
  rest : ∀ j : Fin 16, n < j.val → o.get j = o₀.get j

theorem Carried.round {o₀ o : Gf} (small : ∀ j : Fin 16, |o₀.get j| ≤ 2 ^ 61) (i : Fin 15)
    (carried : Carried o₀ i o) :
    ∃ next, carry o i.castSucc = some next ∧ Carried o₀ (i + 1) next := by
  have inner : i.castSucc < 15 := i.isLt
  have here := carried.here i.castSucc rfl
  have there : |o.get i.succ| ≤ 2 ^ 61 := by
    rw [carried.rest _ (by simp)]
    exact small _
  have place : i.castSucc < 15 ∧ i.succ = i.castSucc + 1 ∧ (1 : Int) = 1 ∨
      i.castSucc = 15 ∧ i.succ = 0 ∧ (1 : Int) = 38 :=
    Or.inl ⟨inner, Fin.coeSucc_eq_succ.symm, rfl⟩
  refine ⟨_, carry_eq place (by omega) there, ?_⟩
  have apart : i.succ ≠ i.castSucc := fun same => by simp [Fin.ext_iff] at same
  have divided := Int.mul_ediv_add_emod (o.get i.castSucc) (2 ^ 16)
  constructor
  · have weight : (2 : Int) ^ (16 * i.succ.val) = 2 ^ (16 * i.castSucc.val) * 2 ^ 16 :=
      weight_succ 16 i
    rw [value_put, value_put, get_put, if_neg apart, ← carried.value, weight]
    linear_combination 2 ^ (16 * i.castSucc.val) * divided
  · intro j below
    rw [get_put, get_put]
    split
    · omega
    next other =>
      rw [if_neg (by rintro rfl; simp at below)]
      have differs : j.val ≠ i.val := fun same => other (Fin.ext same.symm)
      exact carried.done j (by omega)
  · intro j place
    obtain rfl : j = i.succ := Fin.ext place
    rw [get_put, if_neg apart.symm, get_put, if_pos rfl]
    have bounds := abs_le.mp here
    have bounds' := abs_le.mp there
    rw [abs_le]
    omega
  · intro j above
    rw [get_put, if_neg (by rintro rfl; simp at above), get_put,
      if_neg (by rintro rfl; simp at above)]
    exact carried.rest j (by omega)

/-- The carries split the value at 2^256; what is above comes back 38 times, for 2^256 is 38
modulo the prime. -/
theorem car25519_spec {o : Gf} (small : ∀ j : Fin 16, |o.get j| ≤ 2 ^ 61) :
    ∃ digits : Gf, Canonical 16 digits ∧ value 16 digits = value 16 o % 2 ^ 256 ∧
      car25519 o = some (put digits 0
        (digits.get 0 + 38 * (value 16 o / 2 ^ 256))) := by
  have start : Carried o 0 o :=
    ⟨rfl, fun _ below => absurd below (Nat.not_lt_zero _), fun j _ =>
      (small j).trans (by norm_num), fun _ _ => rfl⟩
  rcases forLoop (Carried o) (fun i _ => Carried.round small i) start with ⟨before, ran, carried⟩
  have here := carried.here 15 rfl
  have there := carried.done 0 (by decide)
  have last := carry_eq (o := before) (Or.inr ⟨rfl, rfl, rfl⟩) (by omega)
    (abs_le.mpr (by omega))
  have divided := Int.mul_ediv_add_emod (before.get 15) (2 ^ 16)
  have canonical : Canonical 16 (put before 15 (before.get 15 % 2 ^ 16)) := by
    intro j
    rw [get_put]
    split
    · omega
    next other =>
      have differs : j.val ≠ 15 := fun same => other (Fin.ext same.symm)
      exact carried.done j (by omega)
  have total : value 16 (put before 15 (before.get 15 % 2 ^ 16)) =
      value 16 o - before.get 15 / 2 ^ 16 * 2 ^ 256 := by
    rw [value_put, carried.value]
    show _ + _ * 2 ^ 240 = _
    linear_combination 2 ^ 240 * divided
  have low := canonical.value_nonneg
  have high := canonical.value_lt
  rw [total] at low high
  have quotient : value 16 o / 2 ^ 256 = before.get 15 / 2 ^ 16 := by
    omega
  refine ⟨_, canonical, by omega, ?_⟩
  have split : car25519 o = (List.finRange 15).foldlM (fun o i => carry o i.castSucc) o >>=
      fun before => carry before 15 := by
    rw [car25519, List.finRange_succ_last, List.foldlM_append, List.foldlM_map]
    simp
  have first : (put before 15 (before.get 15 % 2 ^ 16)).get 0 = before.get 0 :=
    get_put_ne before (by decide) _
  rw [split, ran, first, quotient]
  exact last.trans (congrArg some (put_comm before (by decide) _ _))

/-! ### Field elements -/

/-- The limbs stand for the field element, and none is wider than the bound. -/
structure Holds (o : Gf) (bound : Int) (x : ZMod prime) : Prop where
  small : ∀ j : Fin 16, |o.get j| ≤ bound
  field : (value 16 o : ZMod prime) = x

theorem Holds.mono {o : Gf} {bound wider : Int} {x : ZMod prime} (holds : Holds o bound x)
    (le : bound ≤ wider) : Holds o wider x :=
  ⟨fun j => (holds.small j).trans le, holds.field⟩

theorem abs_value_le {o : Gf} {bound : Int} (small : ∀ j : Fin 16, |o.get j| ≤ bound) :
    |value 16 o| ≤ bound * 2 ^ 256 := by
  have positive : 0 ≤ bound := (abs_nonneg _).trans (small 0)
  calc |value 16 o| ≤ ∑ j : Fin 16, |o.get j * 2 ^ (16 * j.val)| := Finset.abs_sum_le_sum_abs _ _
    _ ≤ ∑ j : Fin 16, bound * 2 ^ (16 * j.val) := by
      refine Finset.sum_le_sum fun j _ => ?_
      rw [abs_mul, abs_of_nonneg (show (0 : Int) ≤ 2 ^ (16 * j.val) by positivity)]
      exact mul_le_mul_of_nonneg_right (small j) (by positivity)
    _ = bound * ∑ j : Fin 16, 2 ^ (16 * j.val) := by rw [Finset.mul_sum]
    _ ≤ bound * 2 ^ 256 := mul_le_mul_of_nonneg_left (by decide) positive

/-- 2^256 is 38 in the field. -/
theorem cast_wrap : (2 : ZMod prime) ^ 256 = 38 := by
  have twice : ((2 * prime : Nat) : ZMod prime) = 0 := by
    rw [Nat.cast_mul, ZMod.natCast_self, mul_zero]
  rw [show 2 * prime = 2 ^ 256 - 38 by norm_num [prime], Nat.cast_sub (by norm_num)] at twice
  simp only [Nat.cast_pow, Nat.cast_ofNat] at twice
  exact sub_eq_zero.mp twice

/-- Carries keep the element; the limbs that remain are as narrow as what was wrapped. -/
theorem car25519_holds {o : Gf} {x : ZMod prime} (holds : Holds o (2 ^ 61) x) :
    ∃ r, car25519 o = some r ∧ Holds r (2 ^ 16 + 38 * |value 16 o / 2 ^ 256|) x ∧
      value 16 r = value 16 o % 2 ^ 256 + 38 * (value 16 o / 2 ^ 256) := by
  rcases car25519_spec holds.small with ⟨digits, canonical, total, ran⟩
  have wrapped : value 16 (put digits 0 (digits.get 0 + 38 * (value 16 o / 2 ^ 256))) =
      value 16 o % 2 ^ 256 + 38 * (value 16 o / 2 ^ 256) := by
    rw [value_put, total]
    simp
  refine ⟨_, ran, ⟨fun j => ?_, ?_⟩, wrapped⟩
  · have nonneg := abs_nonneg (value 16 o / 2 ^ 256)
    rw [get_put]
    split
    · have digit := canonical 0
      refine (abs_add_le _ _).trans (add_le_add ?_ ?_)
      · rw [abs_of_nonneg digit.1]
        exact digit.2.le
      · rw [abs_mul]
        norm_num
    · have digit := canonical j
      rw [abs_of_nonneg digit.1]
      omega
  · have divided := congrArg (Int.cast : Int → ZMod prime)
      (Int.mul_ediv_add_emod (value 16 o) (2 ^ 256))
    rw [wrapped, ← holds.field, ← divided]
    simp only [Int.cast_add, Int.cast_mul, Int.cast_pow, Int.cast_ofNat, cast_wrap]
    ring

/-! ### Sums and differences -/

private theorem assign_holds {limb : Fin 16 → Int} {bound : Int} {x : ZMod prime}
    (small : ∀ j, |limb j| ≤ bound) (fits : bound < 2 ^ 63)
    (element : ((∑ j : Fin 16, limb j * 2 ^ (16 * j.val) : Int) : ZMod prime) = x) :
    ∃ r, assign limb = some r ∧ Holds r bound x := by
  have each : ∀ j, Fits (limb j) := by
    intro j
    have limits := abs_le.mp (small j)
    constructor <;> omega
  refine ⟨_, if_pos each, ⟨fun j => ?_, ?_⟩⟩
  · rw [Vector.get_ofFn]
    exact small j
  · rw [value_ofFn, element]

theorem A_holds {a b : Gf} {x y : ZMod prime} (left : Holds a (2 ^ 17) x)
    (right : Holds b (2 ^ 17) y) : ∃ r, A a b = some r ∧ Holds r (2 ^ 18) (x + y) := by
  refine assign_holds (fun j => ?_) (by norm_num) ?_
  · exact (abs_add_le _ _).trans (add_le_add (left.small j) (right.small j))
  · simp only [add_mul, Finset.sum_add_distrib, Int.cast_add, ← left.field, ← right.field]
    rfl

theorem Z_holds {a b : Gf} {x y : ZMod prime} (left : Holds a (2 ^ 17) x)
    (right : Holds b (2 ^ 17) y) : ∃ r, Z a b = some r ∧ Holds r (2 ^ 18) (x - y) := by
  refine assign_holds (fun j => ?_) (by norm_num) ?_
  · exact (abs_sub _ _).trans (add_le_add (left.small j) (right.small j))
  · simp only [sub_mul, Finset.sum_sub_distrib, Int.cast_sub, ← left.field, ← right.field]
    rfl

end LoraSerial.LinkLayer.X25519.Gf
