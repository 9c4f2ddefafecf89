import Mathlib

/-!
Owns numbers kept as signed limbs of a fixed width, the machine integers they are computed
with, and the rule of a counted loop that may fail. A limb may be negative or too wide until
a carry is made.
-/

namespace LoraSerial.Library.Limbs

/-! ### Machine integers -/

/-- A signed 64-bit integer can hold the value. -/
def Fits (value : Int) : Prop :=
  -2 ^ 63 ≤ value ∧ value < 2 ^ 63

instance (value : Int) : Decidable (Fits value) :=
  inferInstanceAs (Decidable (_ ∧ _))

/-- The value of an operation on signed 64-bit integers, nothing where it overflows. -/
def i64 (value : Int) : Option Int :=
  if Fits value then some value else none

theorem i64_eq_some {value : Int} (low : -2 ^ 63 ≤ value) (high : value < 2 ^ 63) :
    i64 value = some value :=
  if_pos ⟨low, high⟩

theorem i64_of_abs {value : Int} (small : |value| < 2 ^ 63) : i64 value = some value := by
  rcases abs_lt.mp small with ⟨low, high⟩
  exact i64_eq_some (by omega) high

theorem bind_of_some {α β : Type} {first : Option α} {result : α} (ran : first = some result)
    (rest : α → Option β) : (first >>= rest) = rest result := by
  rw [ran]
  rfl

/-! ### Counted loops -/

/-- What every round of the loop keeps holds at its end, and no round fails. -/
theorem forLoop {State : Type*} {n : Nat} {body : State → Fin n → Option State}
    (Invariant : Nat → State → Prop)
    (round : ∀ (i : Fin n) state, Invariant i state →
      ∃ next, body state i = some next ∧ Invariant (i + 1) next)
    {state : State} (start : Invariant 0 state) :
    ∃ last, (List.finRange n).foldlM body state = some last ∧ Invariant n last := by
  induction n with
  | zero => exact ⟨state, rfl, start⟩
  | succ n inductionHypothesis =>
      rcases @inductionHypothesis (fun state i => body state i.castSucc)
        (fun i => round i.castSucc) with ⟨before, ran, kept⟩
      rcases round (Fin.last n) before kept with ⟨last, rounded, holds⟩
      refine ⟨last, ?_, holds⟩
      rw [List.finRange_succ_last, List.foldlM_append, List.foldlM_map, ran]
      simpa using rounded

/-! ### Values -/

section Value

variable {n : Nat} (width : Nat)

/-- `limbs[i] = limb`. -/
def put (limbs : Vector Int n) (i : Fin n) (limb : Int) : Vector Int n :=
  limbs.set i.val limb i.isLt

/-- The number that the limbs stand for, lowest first. -/
def value (limbs : Vector Int n) : Int :=
  ∑ i : Fin n, limbs.get i * 2 ^ (width * i.val)

theorem value_ofFn (limb : Fin n → Int) :
    value width (Vector.ofFn limb) = ∑ i : Fin n, limb i * 2 ^ (width * i.val) :=
  Finset.sum_congr rfl fun i _ => congrArg (· * _) (Vector.get_ofFn limb i)

theorem weight_succ (i : Fin n) :
    (2 : Int) ^ (width * i.succ.val) = 2 ^ (width * i.val) * 2 ^ width := by
  rw [Fin.val_succ, Nat.mul_succ, pow_add]

omit width in
theorem get_put (limbs : Vector Int n) (i j : Fin n) (limb : Int) :
    (put limbs i limb).get j = if i = j then limb else limbs.get j := by
  simp only [put, Vector.get_eq_getElem, Vector.getElem_set, Fin.ext_iff]

omit width in
theorem get_put_self (limbs : Vector Int n) (i : Fin n) (limb : Int) :
    (put limbs i limb).get i = limb := by
  rw [get_put, if_pos rfl]

omit width in
theorem get_put_ne (limbs : Vector Int n) {i j : Fin n} (differ : i ≠ j) (limb : Int) :
    (put limbs i limb).get j = limbs.get j := by
  rw [get_put, if_neg differ]

omit width in
theorem put_put (limbs : Vector Int n) (i : Fin n) (first second : Int) :
    put (put limbs i first) i second = put limbs i second :=
  Vector.set_set _ _

omit width in
theorem put_comm (limbs : Vector Int n) {i j : Fin n} (differ : i ≠ j) (first second : Int) :
    put (put limbs i first) j second = put (put limbs j second) i first :=
  Vector.set_comm _ _ (Fin.val_ne_of_ne differ)

theorem value_put (limbs : Vector Int n) (i : Fin n) (limb : Int) :
    value width (put limbs i limb) =
      value width limbs + (limb - limbs.get i) * 2 ^ (width * i.val) := by
  have each (j : Fin n) : (put limbs i limb).get j * 2 ^ (width * j.val) =
      limbs.get j * 2 ^ (width * j.val) +
        if i = j then (limb - limbs.get i) * 2 ^ (width * i.val) else 0 := by
    rw [get_put]
    by_cases same : i = j
    · subst same
      rw [if_pos rfl, if_pos rfl]
      ring
    · rw [if_neg same, if_neg same, add_zero]
  simp only [value, each, Finset.sum_add_distrib, Finset.sum_ite_eq, Finset.mem_univ, if_true]

theorem value_eq_foldr (limbs : Vector Int n) :
    value width limbs = limbs.toList.foldr (fun limb rest => limb + 2 ^ width * rest) 0 := by
  rcases limbs with ⟨⟨limbs⟩, rfl⟩
  show ∑ i : Fin limbs.length, limbs.get i * 2 ^ (width * i.val) = limbs.foldr _ 0
  induction limbs with
  | nil => rfl
  | cons limb limbs inductionHypothesis =>
      show ∑ i : Fin (limbs.length + 1), (limb :: limbs).get i * 2 ^ (width * i.val) = _
      rw [Fin.sum_univ_succ]
      show limb * 2 ^ (width * 0) +
        ∑ i : Fin limbs.length, limbs.get i * 2 ^ (width * (i.val + 1)) =
        limb + 2 ^ width * limbs.foldr _ 0
      rw [← inductionHypothesis, Finset.mul_sum, Nat.mul_zero, pow_zero, mul_one]
      refine congrArg _ (Finset.sum_congr rfl fun i _ => ?_)
      rw [Nat.mul_succ, pow_add]
      ring

/-- Limbs that need no carry. -/
def Canonical (limbs : Vector Int n) : Prop :=
  ∀ i : Fin n, 0 ≤ limbs.get i ∧ limbs.get i < 2 ^ width

private theorem sum_lt (f : Fin n → Int) (canonical : ∀ i, 0 ≤ f i ∧ f i < 2 ^ width) :
    ∑ i : Fin n, f i * 2 ^ (width * i.val) < 2 ^ (width * n) := by
  induction n with
  | zero => simp
  | succ n inductionHypothesis =>
      rw [Fin.sum_univ_castSucc]
      have lower := inductionHypothesis (fun i => f i.castSucc) fun i => canonical i.castSucc
      have top : f (Fin.last n) ≤ 2 ^ width - 1 := by
        have below := (canonical (Fin.last n)).2
        omega
      have weight : (0 : Int) ≤ 2 ^ (width * n) := by positivity
      have upper := mul_le_mul_of_nonneg_right top weight
      calc ∑ i : Fin n, f i.castSucc * 2 ^ (width * i.castSucc.val) +
            f (Fin.last n) * 2 ^ (width * (Fin.last n).val)
          < 2 ^ (width * n) + (2 ^ width - 1) * 2 ^ (width * n) := add_lt_add_of_lt_of_le lower upper
        _ = 2 ^ (width * (n + 1)) := by
          rw [Nat.mul_succ, pow_add]
          ring

theorem Canonical.value_lt {limbs : Vector Int n} (canonical : Canonical width limbs) :
    value width limbs < 2 ^ (width * n) :=
  sum_lt width (fun i => limbs.get i) canonical

theorem Canonical.value_nonneg {limbs : Vector Int n} (canonical : Canonical width limbs) :
    0 ≤ value width limbs :=
  Finset.sum_nonneg fun i _ => mul_nonneg (canonical i).1 (by positivity)

/-- The lowest limb is what the value leaves at the width. -/
theorem Canonical.emod {limbs : Vector Int (n + 1)} (canonical : Canonical width limbs) :
    value width limbs % 2 ^ width = limbs.get (0 : Fin (n + 1)) := by
  have upper : ∑ i : Fin n, limbs.get i.succ * 2 ^ (width * i.succ.val) =
      2 ^ width * ∑ i : Fin n, limbs.get i.succ * 2 ^ (width * i.val) := by
    rw [Finset.mul_sum]
    refine Finset.sum_congr rfl fun i _ => ?_
    rw [weight_succ]
    ring
  have weight : (2 : Int) ^ (width * (0 : Fin (n + 1)).val) = 1 := by
    rw [Fin.val_zero, Nat.mul_zero, pow_zero]
  have lowest : limbs.get (0 : Fin (n + 1)) * 2 ^ (width * (0 : Fin (n + 1)).val) =
      limbs.get (0 : Fin (n + 1)) := by
    rw [weight, mul_one]
  rw [value, Fin.sum_univ_succ, upper, lowest, Int.add_mul_emod_self_left]
  exact Int.emod_eq_of_lt (canonical 0).1 (canonical 0).2

end Value

end LoraSerial.Library.Limbs
