import Mathlib.AlgebraicGeometry.EllipticCurve.Affine.Point
import Mathlib.FieldTheory.IsAlgClosed.AlgebraicClosure
import Mathlib.Tactic.LinearCombination

/-!
Owns multiplication on a Montgomery curve by x-coordinates alone: doubling, differential
addition, and the ladder over the bits of a scalar. The ladder computes the x-coordinate of
the multiple, so multiplications by two scalars commute. Does not own constant time.
-/

namespace LoraSerial.Library.MontgomeryCurve

open WeierstrassCurve Affine

/-! ### The ladder -/

/-- Two x-coordinates as fractions, `a / c` and `b / d`. -/
structure Rungs (K : Type*) where
  a : K
  b : K
  c : K
  d : K

section Formulas

variable {K : Type*} [CommRing K] (a24 x : K)

/-- Swap the two fractions when the bit is set. -/
def Rungs.sel (s : Rungs K) (bit : Bool) : Rungs K :=
  if bit then { a := s.b, b := s.a, c := s.d, d := s.c } else s

/-- Double the first fraction, and add the two, whose difference has the x-coordinate `x`. -/
def Rungs.advance (s : Rungs K) : Rungs K where
  a := (s.a + s.c) ^ 2 * (s.a - s.c) ^ 2
  b := ((s.b + s.d) * (s.a - s.c) + (s.b - s.d) * (s.a + s.c)) ^ 2
  c := ((s.a + s.c) ^ 2 - (s.a - s.c) ^ 2) *
    (((s.a + s.c) ^ 2 - (s.a - s.c) ^ 2) * a24 + (s.a + s.c) ^ 2)
  d := ((s.b + s.d) * (s.a - s.c) - (s.b - s.d) * (s.a + s.c)) ^ 2 * x

def Rungs.step (bit : Bool) (s : Rungs K) : Rungs K :=
  ((s.sel bit).advance a24 x).sel bit

/-- Bits `bits - 1` down to 0 of the scalar. -/
def ladder (scalar : Nat) : Nat → Rungs K → Rungs K
  | 0, s => s
  | bits + 1, s => ladder scalar bits (s.step a24 x (scalar.testBit bits))

/-- Nothing, and the point itself. -/
def Rungs.first : Rungs K :=
  { a := 1, b := x, c := 0, d := 1 }

end Formulas

/-- The x-coordinate of a multiple of the point with the x-coordinate `x`. -/
def multiply {K : Type*} [Field K] (a24 : K) (bits scalar : Nat) (x : K) : K :=
  (ladder a24 x scalar bits (Rungs.first x)).a *
    (ladder a24 x scalar bits (Rungs.first x)).c⁻¹

/-! ### Homomorphisms -/

section Map

variable {K L : Type*}

def Rungs.map (f : K → L) (s : Rungs K) : Rungs L :=
  { a := f s.a, b := f s.b, c := f s.c, d := f s.d }

theorem Rungs.map_sel (f : K → L) (s : Rungs K) (bit : Bool) :
    (s.sel bit).map f = (s.map f).sel bit := by
  cases bit <;> rfl

variable [CommRing K] [CommRing L] (f : K →+* L) (a24 x : K)

theorem Rungs.map_advance (s : Rungs K) :
    (s.advance a24 x).map f = (s.map f).advance (f a24) (f x) := by
  simp only [map, advance, map_add, map_sub, map_mul, map_pow]

theorem Rungs.map_step (bit : Bool) (s : Rungs K) :
    (s.step a24 x bit).map f = (s.map f).step (f a24) (f x) bit := by
  rw [step, step, map_sel, map_advance, map_sel]

theorem map_ladder (scalar bits : Nat) (s : Rungs K) :
    (ladder a24 x scalar bits s).map f = ladder (f a24) (f x) scalar bits (s.map f) := by
  induction bits generalizing s with
  | zero => rfl
  | succ bits inductionHypothesis =>
      rw [ladder, ladder, inductionHypothesis, Rungs.map_step]

theorem Rungs.map_first : (first x).map f = first (f x) := by
  simp only [first, map, map_one, map_zero]

end Map

theorem map_multiply {K L : Type*} [Field K] [Field L] (f : K →+* L) (a24 : K)
    (bits scalar : Nat) (x : K) :
    f (multiply a24 bits scalar x) = multiply (f a24) bits scalar (f x) := by
  have mapped := map_ladder f a24 x scalar bits (Rungs.first x)
  rw [Rungs.map_first] at mapped
  rw [multiply, multiply, ← mapped, map_mul, map_inv₀]
  rfl

/-! ### The x-coordinate zero -/

section Zero

variable {K : Type*} [Field K] (a24 : K)

/-- From the x-coordinate zero both denominators vanish after one step. -/
theorem Rungs.step_zero {s : Rungs K} (left : s.a * s.c = 0) (right : s.b * s.d = 0)
    (bit : Bool) : (s.step a24 0 bit).c = 0 ∧ (s.step a24 0 bit).d = 0 := by
  cases bit with
  | false =>
      refine ⟨?_, mul_zero _⟩
      show ((s.a + s.c) ^ 2 - (s.a - s.c) ^ 2) * _ = 0
      rw [show (s.a + s.c) ^ 2 - (s.a - s.c) ^ 2 = 4 * (s.a * s.c) by ring, left, mul_zero,
        zero_mul]
  | true =>
      refine ⟨mul_zero _, ?_⟩
      show ((s.b + s.d) ^ 2 - (s.b - s.d) ^ 2) * _ = 0
      rw [show (s.b + s.d) ^ 2 - (s.b - s.d) ^ 2 = 4 * (s.b * s.d) by ring, right, mul_zero,
        zero_mul]

theorem ladder_zero {s : Rungs K} (left : s.c = 0) (right : s.d = 0) (scalar bits : Nat) :
    (ladder a24 0 scalar bits s).c = 0 := by
  induction bits generalizing s with
  | zero => exact left
  | succ bits inductionHypothesis =>
      rw [ladder]
      have stepped := Rungs.step_zero a24 (s := s) (by rw [left, mul_zero])
        (by rw [right, mul_zero]) (scalar.testBit bits)
      exact inductionHypothesis stepped.1 stepped.2

theorem multiply_zero {bits : Nat} (positive : 0 < bits) (scalar : Nat) :
    multiply a24 bits scalar 0 = 0 := by
  cases bits with
  | zero => exact absurd positive (Nat.lt_irrefl 0)
  | succ bits =>
      have stepped := Rungs.step_zero a24 (s := Rungs.first 0) (mul_zero _) (zero_mul _)
        (scalar.testBit bits)
      rw [multiply, ladder, ladder_zero a24 stepped.1 stepped.2, inv_zero, mul_zero]

end Zero

/-! ### The curve -/

section Curve

variable {K : Type*} [Field K] {a : K}

/-- `y² = x³ + a x² + x`. -/
def curve (a : K) : Affine K :=
  { a₁ := 0, a₂ := a, a₃ := 0, a₄ := 1, a₆ := 0 }

theorem equation_curve {x y : K} : (curve a).Equation x y ↔ y ^ 2 = x ^ 3 + a * x ^ 2 + x := by
  rw [equation_iff]
  simp [curve]

theorem map_constant {L : Type*} [Field L] (f : K →+* L) {a24 : K}
    (constant : 4 * a24 = a - 2) : 4 * f a24 = f a - 2 := by
  have mapped := congrArg f constant
  rwa [map_mul, map_sub, map_ofNat, map_ofNat] at mapped

theorem negY_curve (x y : K) : (curve a).negY x y = -y := by
  simp [negY, curve]

theorem addX_curve (x₁ x₂ l : K) : (curve a).addX x₁ x₂ l = l ^ 2 - a - x₁ - x₂ := by
  simp [addX, curve]

/-- The curve has no singular point. -/
structure Smooth (a : K) : Prop where
  two : (2 : K) ≠ 0
  distinct : a ^ 2 ≠ 4

theorem Smooth.four (smooth : Smooth a) : (4 : K) ≠ 0 := by
  rw [show (4 : K) = 2 * 2 by norm_num]
  exact mul_ne_zero smooth.two smooth.two

theorem Smooth.map {L : Type*} [Field L] (smooth : Smooth a) (f : K →+* L) : Smooth (f a) where
  two := by
    rw [← map_ofNat f 2]
    exact (map_ne_zero f).mpr smooth.two
  distinct := fun four => smooth.distinct (f.injective (by rw [map_pow, four, map_ofNat]))

theorem Smooth.nonsingular (smooth : Smooth a) {x y : K}
    (equation : y ^ 2 = x ^ 3 + a * x ^ 2 + x) : (curve a).Nonsingular x y := by
  refine ((curve a).equation_iff_nonsingular_of_Δ_ne_zero ?_).mp (equation_curve.mpr equation)
  have value : (curve a).Δ = 4 * 4 * (a ^ 2 - 4) := by
    simp only [WeierstrassCurve.Δ, WeierstrassCurve.b₂, WeierstrassCurve.b₄,
      WeierstrassCurve.b₆, WeierstrassCurve.b₈, curve]
    ring
  rw [value]
  exact mul_ne_zero (mul_ne_zero smooth.four smooth.four) (sub_ne_zero.mpr smooth.distinct)

/-- The x-coordinate, zero at infinity. -/
def xOf : (curve a).Point → K
  | .zero => 0
  | .some x _ _ => x

/-- The fraction `x / z` is the point's x-coordinate; at infinity the denominator is zero. -/
def Represents (x z : K) : (curve a).Point → Prop
  | .zero => x ≠ 0 ∧ z = 0
  | .some px _ _ => z ≠ 0 ∧ x = px * z

theorem Represents.fraction {x z : K} {point : (curve a).Point}
    (represents : Represents x z point) : x * z⁻¹ = xOf point := by
  cases point with
  | zero => rw [represents.2, inv_zero, mul_zero, xOf]
  | some px py on => rw [represents.2, mul_inv_cancel_right₀ represents.1, xOf]

theorem Represents.neg {x z : K} {point : (curve a).Point}
    (represents : Represents x z point) : Represents x z (-point) := by
  cases point with
  | zero => exact represents
  | some px py on => exact represents

theorem xOf_neg (point : (curve a).Point) : xOf (-point) = xOf point := by
  cases point <;> rfl

theorem exists_xOf [IsAlgClosed K] (smooth : Smooth a) (x : K) :
    ∃ point : (curve a).Point, xOf point = x := by
  rcases IsAlgClosed.exists_pow_nat_eq (x ^ 3 + a * x ^ 2 + x) two_pos with ⟨y, equation⟩
  exact ⟨.some x y (smooth.nonsingular equation), rfl⟩

/-! ### Doubling and adding -/

variable [DecidableEq K] {a24 : K}

theorem Represents.double (smooth : Smooth a) (constant : 4 * a24 = a - 2) {x z : K}
    {point : (curve a).Point} (represents : Represents x z point) :
    Represents ((x + z) ^ 2 * (x - z) ^ 2)
      (((x + z) ^ 2 - (x - z) ^ 2) * (((x + z) ^ 2 - (x - z) ^ 2) * a24 + (x + z) ^ 2))
      (point + point) := by
  cases point with
  | zero =>
      rcases represents with ⟨nonzero, rfl⟩
      refine ⟨?_, by ring⟩
      rw [add_zero, sub_zero]
      exact mul_ne_zero (pow_ne_zero 2 nonzero) (pow_ne_zero 2 nonzero)
  | some px py on =>
      rcases represents with ⟨nonzero, rfl⟩
      have equation : py ^ 2 = px ^ 3 + a * px ^ 2 + px := equation_curve.mp on.1
      have denominator : ((px * z + z) ^ 2 - (px * z - z) ^ 2) *
          (((px * z + z) ^ 2 - (px * z - z) ^ 2) * a24 + (px * z + z) ^ 2) =
            4 * py ^ 2 * z ^ 4 := by
        linear_combination 4 * px ^ 2 * z ^ 4 * constant - 4 * z ^ 4 * equation
      have numerator : (px * z + z) ^ 2 * (px * z - z) ^ 2 = (px ^ 2 - 1) ^ 2 * z ^ 4 := by
        ring
      rw [denominator, numerator]
      by_cases vertical : py = 0
      · have twice : Point.some px py on + Point.some px py on = 0 := by
          refine Point.add_self_of_Y_eq ?_
          simp [negY, curve, vertical]
        rw [twice]
        refine ⟨mul_ne_zero (pow_ne_zero 2 ?_) (pow_ne_zero 4 nonzero), by simp [vertical]⟩
        intro unit
        rw [vertical] at equation
        have middle : a = -(2 * px) := by
          linear_combination -equation - (px + a) * unit
        refine smooth.distinct ?_
        rw [middle]
        linear_combination 4 * unit
      · have differs : py ≠ (curve a).negY px py := by
          rw [negY_curve]
          intro same
          refine vertical ((mul_eq_zero.mp ?_).resolve_left smooth.two)
          linear_combination same
        have slope : (curve a).slope px px py py = (3 * px ^ 2 + 2 * a * px + 1) / (2 * py) := by
          rw [slope_of_Y_ne rfl differs, negY_curve]
          simp only [curve]
          congr 1 <;> ring
        rw [Point.add_self_of_Y_ne differs]
        refine ⟨mul_ne_zero (mul_ne_zero smooth.four (pow_ne_zero 2 vertical))
          (pow_ne_zero 4 nonzero), ?_⟩
        rw [addX_curve, slope]
        have two := smooth.two
        field_simp
        linear_combination (16 * a + 32 * px) * equation

/-- The sum and the difference of two points with different x-coordinates. -/
theorem addX_mul_subX {x₁ y₁ x₂ y₂ : K} (differ : x₁ ≠ x₂)
    (first : y₁ ^ 2 = x₁ ^ 3 + a * x₁ ^ 2 + x₁) (second : y₂ ^ 2 = x₂ ^ 3 + a * x₂ ^ 2 + x₂) :
    (curve a).addX x₁ x₂ ((curve a).slope x₁ x₂ y₁ y₂) *
      (curve a).addX x₁ x₂ ((curve a).slope x₁ x₂ y₁ (-y₂)) * (x₁ - x₂) ^ 2 =
        (x₁ * x₂ - 1) ^ 2 := by
  have apart : x₁ - x₂ ≠ 0 := sub_ne_zero.mpr differ
  rw [slope_of_X_ne differ, slope_of_X_ne differ, addX_curve, addX_curve]
  field_simp
  linear_combination
    (y₁ ^ 2 - y₂ ^ 2 + (x₁ ^ 3 + a * x₁ ^ 2 + x₁) - (x₂ ^ 3 + a * x₂ ^ 2 + x₂) -
      2 * (a + x₁ + x₂) * (x₁ - x₂) ^ 2) * first -
    (y₁ ^ 2 - y₂ ^ 2 + (x₁ ^ 3 + a * x₁ ^ 2 + x₁) - (x₂ ^ 3 + a * x₂ ^ 2 + x₂) +
      2 * (a + x₁ + x₂) * (x₁ - x₂) ^ 2) * second

/-- A point whose double has a nonzero x-coordinate does not lie above ±1. -/
theorem sq_ne_one_of_double (smooth : Smooth a) (constant : 4 * a24 = a - 2) {px py : K}
    {on : (curve a).Nonsingular px py} {base : (curve a).Point} (nonzero : xOf base ≠ 0)
    (twice : base = -(Point.some px py on + Point.some px py on)) : px ^ 2 ≠ 1 := by
  intro unit
  have itself : Represents px 1 (Point.some px py on) := ⟨one_ne_zero, (mul_one px).symm⟩
  have doubled := (itself.double smooth constant).neg.fraction
  rw [← twice] at doubled
  refine nonzero (doubled.symm.trans ?_)
  rw [show (px + 1) ^ 2 * (px - 1) ^ 2 = (px ^ 2 - 1) ^ 2 by ring, unit, sub_self]
  ring

theorem Represents.add (smooth : Smooth a) (constant : 4 * a24 = a - 2) {x z x' z' u : K}
    {point next base : (curve a).Point} (successor : next = point + base) (u_eq : xOf base = u)
    (nonzero : u ≠ 0) (represents : Represents x z point) (represents' : Represents x' z' next) :
    Represents (((x' + z') * (x - z) + (x' - z') * (x + z)) ^ 2)
      (((x' + z') * (x - z) - (x' - z') * (x + z)) ^ 2 * u) (point + next) := by
  have cross : (x' + z') * (x - z) + (x' - z') * (x + z) = 2 * (x * x' - z * z') := by ring
  have difference : (x' + z') * (x - z) - (x' - z') * (x + z) = 2 * (x * z' - x' * z) := by ring
  rw [cross, difference]
  have affine : base ≠ 0 := by
    rintro rfl
    exact nonzero u_eq.symm
  cases point with
  | zero =>
      rcases represents with ⟨top, rfl⟩
      obtain rfl : next = base := successor.trans (zero_add base)
      rw [show (Point.zero : (curve a).Point) = 0 from rfl, zero_add]
      cases next with
      | zero => exact absurd rfl affine
      | some qx qy on' =>
          rcases represents' with ⟨bottom, rfl⟩
          obtain rfl : qx = u := u_eq
          refine ⟨mul_ne_zero (pow_ne_zero 2 (mul_ne_zero smooth.two ?_)) nonzero, by ring⟩
          rw [mul_zero, sub_zero]
          exact mul_ne_zero top bottom
  | some px py on =>
      rcases represents with ⟨bottom, rfl⟩
      cases next with
      | zero =>
          rcases represents' with ⟨top', rfl⟩
          obtain rfl : base = -Point.some px py on :=
            (neg_eq_of_add_eq_zero_right successor.symm).symm
          obtain rfl : px = u := u_eq
          rw [show (Point.zero : (curve a).Point) = 0 from rfl, add_zero]
          refine ⟨mul_ne_zero (pow_ne_zero 2 (mul_ne_zero smooth.two ?_)) nonzero, by ring⟩
          rw [mul_zero, zero_sub]
          exact neg_ne_zero.mpr (mul_ne_zero top' bottom)
      | some qx qy on' =>
          rcases represents' with ⟨bottom', rfl⟩
          by_cases same : qx = px
          · rcases Point.X_eq_iff.mp same with equal | opposite
            · rw [equal] at successor
              exact absurd (left_eq_add.mp successor) affine
            · have twice : base = -(Point.some px py on + Point.some px py on) := by
                rw [opposite] at successor
                rw [neg_add, ← sub_eq_add_neg, eq_sub_iff_add_eq, successor, add_comm]
              rw [opposite, add_neg_cancel]
              subst same
              have unequal := sq_ne_one_of_double smooth constant (u_eq.trans_ne nonzero) twice
              refine ⟨?_, by ring⟩
              rw [show qx * z * (qx * z') - z * z' = (qx ^ 2 - 1) * (z * z') by ring]
              exact pow_ne_zero 2 (mul_ne_zero smooth.two
                (mul_ne_zero (sub_ne_zero.mpr unequal) (mul_ne_zero bottom bottom')))
          · have apart : qx - px ≠ 0 := sub_ne_zero.mpr same
            have minus : base = Point.some qx qy on' + -Point.some px py on := by
              rw [successor, add_neg_cancel_comm]
            rw [Point.neg_some, Point.add_of_X_ne same] at minus
            have product := addX_mul_subX same (equation_curve.mp on'.1) (equation_curve.mp on.1)
            rw [minus, xOf, negY_curve] at u_eq
            rw [u_eq] at product
            rw [add_comm, Point.add_of_X_ne same]
            refine ⟨mul_ne_zero (pow_ne_zero 2 (mul_ne_zero smooth.two ?_)) nonzero, ?_⟩
            · rw [show px * z * z' - qx * z' * z = -((qx - px) * (z * z')) by ring]
              exact neg_ne_zero.mpr (mul_ne_zero apart (mul_ne_zero bottom bottom'))
            · linear_combination -(4 * z ^ 2 * z' ^ 2) * product

/-! ### Runs of the ladder -/

/-- The rungs hold a multiple of the base point and the next one. -/
structure Rungs.Tracks (s : Rungs K) (base : (curve a).Point) (count : Nat) : Prop where
  lower : Represents s.a s.c (count • base)
  upper : Represents s.b s.d ((count + 1) • base)

theorem Rungs.Tracks.step (smooth : Smooth a) (constant : 4 * a24 = a - 2) {s : Rungs K}
    {base : (curve a).Point} {count : Nat} (nonzero : xOf base ≠ 0) (tracks : s.Tracks base count)
    (bit : Bool) : (s.step a24 (xOf base) bit).Tracks base (2 * count + bit.toNat) := by
  rcases tracks with ⟨lower, upper⟩
  cases bit with
  | false =>
      have next : (count + 1) • base = count • base + base := succ_nsmul base count
      have doubled := lower.double smooth constant
      have added := lower.add smooth constant next rfl nonzero upper
      rw [← two_nsmul, ← mul_nsmul'] at doubled
      rw [← add_nsmul, show count + (count + 1) = 2 * count + 1 by ring] at added
      exact ⟨doubled, added⟩
  | true =>
      have next : count • base = (count + 1) • base + -base := by
        rw [succ_nsmul, add_neg_cancel_right]
      have doubled := upper.double smooth constant
      have added := upper.add smooth constant next (xOf_neg base) nonzero lower
      rw [← two_nsmul, ← mul_nsmul'] at doubled
      rw [← add_nsmul, show count + 1 + count = 2 * count + 1 by ring] at added
      exact ⟨added, doubled⟩

/-- What the remaining bits of the scalar make of the count. -/
theorem Rungs.Tracks.ladder (smooth : Smooth a) (constant : 4 * a24 = a - 2) {s : Rungs K}
    {base : (curve a).Point} {count : Nat} (nonzero : xOf base ≠ 0) (tracks : s.Tracks base count)
    (scalar bits : Nat) : (ladder a24 (xOf base) scalar bits s).Tracks base
      (count * 2 ^ bits + scalar % 2 ^ bits) := by
  induction bits generalizing s count with
  | zero => simpa [MontgomeryCurve.ladder, Nat.mod_one] using tracks
  | succ bits inductionHypothesis =>
      have stepped := tracks.step smooth constant nonzero (scalar.testBit bits)
      have rest := inductionHypothesis stepped
      have counted : (2 * count + (scalar.testBit bits).toNat) * 2 ^ bits + scalar % 2 ^ bits =
          count * 2 ^ (bits + 1) + scalar % 2 ^ (bits + 1) := by
        rw [Nat.mod_pow_succ, Nat.toNat_testBit]
        ring
      rw [counted] at rest
      exact rest

theorem multiply_of_ne_zero (smooth : Smooth a) (constant : 4 * a24 = a - 2)
    {base : (curve a).Point} (nonzero : xOf base ≠ 0) (bits scalar : Nat) :
    multiply a24 bits scalar (xOf base) = xOf ((scalar % 2 ^ bits) • base) := by
  have start : (Rungs.first (xOf base)).Tracks base 0 := by
    constructor
    · rw [zero_nsmul]
      exact ⟨one_ne_zero, rfl⟩
    · rw [zero_add, one_nsmul]
      cases base with
      | zero => exact absurd rfl nonzero
      | some px py on => exact ⟨one_ne_zero, (mul_one px).symm⟩
  have finished := start.ladder smooth constant nonzero scalar bits
  rw [zero_mul, zero_add] at finished
  exact finished.lower.fraction

/-- Above zero there is one point, of order two. -/
theorem xOf_nsmul_of_eq_zero {base : (curve a).Point} (zero : xOf base = 0) (count : Nat) :
    xOf (count • base) = 0 := by
  have twice : base + base = 0 := by
    cases base with
    | zero => rfl
    | some px py on =>
        obtain rfl : px = 0 := zero
        have flat : py = 0 := by
          have equation := equation_curve.mp on.1
          refine (pow_eq_zero_iff two_ne_zero).mp ?_
          rw [equation]
          ring
        exact Point.add_self_of_Y_eq (by rw [negY_curve, flat, neg_zero])
  have multiple : count • base = 0 ∨ count • base = base := by
    induction count with
    | zero => exact Or.inl (zero_nsmul base)
    | succ count inductionHypothesis =>
        rw [succ_nsmul]
        rcases inductionHypothesis with none | once
        · rw [none, zero_add]
          exact Or.inr rfl
        · rw [once]
          exact Or.inl twice
  rcases multiple with none | once
  · rw [none]
    rfl
  · rw [once, zero]

/-- The ladder multiplies by the scalar's low bits, from every x-coordinate. -/
theorem multiply_xOf (smooth : Smooth a) (constant : 4 * a24 = a - 2) (base : (curve a).Point)
    {bits : Nat} (positive : 0 < bits) (scalar : Nat) :
    multiply a24 bits scalar (xOf base) = xOf ((scalar % 2 ^ bits) • base) := by
  by_cases zero : xOf base = 0
  · rw [xOf_nsmul_of_eq_zero zero, zero]
    exact multiply_zero a24 positive scalar
  · exact multiply_of_ne_zero smooth constant zero bits scalar

end Curve

/-- Multiplications by two scalars commute, also where the curve has no point over the field. -/
theorem multiply_comm {F : Type*} [Field F] {a a24 : F} (smooth : Smooth a)
    (constant : 4 * a24 = a - 2) {bits : Nat} (positive : 0 < bits) (m n : Nat) (x : F) :
    multiply a24 bits m (multiply a24 bits n x) = multiply a24 bits n (multiply a24 bits m x) := by
  classical
  let f := algebraMap F (AlgebraicClosure F)
  have smooth' : Smooth (f a) := smooth.map f
  have constant' : 4 * f a24 = f a - 2 := map_constant f constant
  rcases exists_xOf smooth' (f x) with ⟨point, above⟩
  refine f.injective ?_
  rw [map_multiply, map_multiply, map_multiply, map_multiply, ← above]
  simp only [multiply_xOf smooth' constant' _ positive]
  rw [← mul_nsmul, ← mul_nsmul']

end LoraSerial.Library.MontgomeryCurve
