import LoraSerial.LinkLayer.FieldCarry
import Mathlib

/-!
Owns products, inverses and the ladder in limbs: none overflows, and each computes what the
ladder over the field computes. Does not own bytes.
-/

namespace LoraSerial.LinkLayer.X25519.Gf

open Library.Limbs

/-! ### Schoolbook multiplication -/

section Product

variable {a b : Gf} {t : Vector Int 31} {top : Int}

private theorem abs_mul_le (left : ∀ j : Fin 16, |a.get j| ≤ 2 ^ 18)
    (right : ∀ j : Fin 16, |b.get j| ≤ 2 ^ 18) (i j : Fin 16) : |a.get i * b.get j| ≤ 2 ^ 36 := by
  rw [abs_mul]
  calc |a.get i| * |b.get j| ≤ 2 ^ 18 * 2 ^ 18 :=
        mul_le_mul (left i) (right j) (abs_nonneg _) (by norm_num)
    _ = 2 ^ 36 := by norm_num

/-- The products of one row add up, each at its own weight. -/
private theorem row_spec (left : ∀ j : Fin 16, |a.get j| ≤ 2 ^ 18)
    (right : ∀ j : Fin 16, |b.get j| ≤ 2 ^ 18) (i : Fin 16) (columns : List (Fin 16))
    (small : ∀ k : Fin 31, |t.get k| ≤ top) (fits : top + 2 ^ 36 * columns.length < 2 ^ 63) :
    ∃ t', columns.foldlM (product a b i) t = some t' ∧
      value 16 t' = value 16 t +
        (columns.map fun j => a.get i * b.get j * 2 ^ (16 * (i.val + j.val))).sum ∧
      ∀ k : Fin 31, |t'.get k| ≤ top + 2 ^ 36 * columns.length := by
  induction columns generalizing t top with
  | nil => exact ⟨t, rfl, by simp, by simpa using small⟩
  | cons j columns inductionHypothesis =>
      have term := abs_le.mp (abs_mul_le left right i j)
      have before := abs_le.mp (small (position i j))
      rw [List.length_cons] at fits
      push_cast at fits
      have added : product a b i t j =
          some (put t (position i j) (t.get (position i j) + a.get i * b.get j)) := by
        have single : i64 (a.get i * b.get j) = some (a.get i * b.get j) :=
          i64_eq_some (by omega) (by omega)
        have sum : i64 (t.get (position i j) + a.get i * b.get j) =
            some (t.get (position i j) + a.get i * b.get j) :=
          i64_eq_some (by omega) (by omega)
        exact (bind_of_some single _).trans (bind_of_some sum _)
      have small' : ∀ k : Fin 31,
          |(put t (position i j) (t.get (position i j) + a.get i * b.get j)).get k| ≤ top + 2 ^ 36 := by
        intro k
        rw [get_put]
        split
        · exact (abs_add_le _ _).trans (add_le_add (small _) (abs_mul_le left right i j))
        · exact (small k).trans (by norm_num)
      rcases inductionHypothesis small' (by omega) with ⟨t', ran, total, bounded⟩
      refine ⟨t', ?_, ?_, fun k => (bounded k).trans (le_of_eq ?_)⟩
      · rw [List.foldlM_cons, added]
        exact ran
      · have weight : (2 : Int) ^ (16 * (position i j).val) = 2 ^ (16 * (i.val + j.val)) := rfl
        rw [total, value_put, weight, List.map_cons, List.sum_cons]
        ring
      · rw [List.length_cons]
        push_cast
        ring

/-- So do the rows. -/
private theorem rows_spec (left : ∀ j : Fin 16, |a.get j| ≤ 2 ^ 18)
    (right : ∀ j : Fin 16, |b.get j| ≤ 2 ^ 18) (rows : List (Fin 16))
    (small : ∀ k : Fin 31, |t.get k| ≤ top) (fits : top + 2 ^ 40 * rows.length < 2 ^ 63) :
    ∃ t', rows.foldlM (row a b) t = some t' ∧
      value 16 t' = value 16 t + (rows.map fun i => a.get i * 2 ^ (16 * i.val)).sum * value 16 b ∧
      ∀ k : Fin 31, |t'.get k| ≤ top + 2 ^ 40 * rows.length := by
  induction rows generalizing t top with
  | nil => exact ⟨t, rfl, by simp, by simpa using small⟩
  | cons i rows inductionHypothesis =>
      rw [List.length_cons] at fits
      push_cast at fits
      have columns : ((List.finRange 16).length : Int) = 16 := by simp
      rcases row_spec left right i (List.finRange 16) small (by omega) with
        ⟨next, ran, total, bounded⟩
      rw [columns] at bounded
      rcases inductionHypothesis bounded (by omega) with ⟨t', ran', total', bounded'⟩
      refine ⟨t', ?_, ?_, fun k => (bounded' k).trans (le_of_eq ?_)⟩
      · rw [List.foldlM_cons, row, ran]
        exact ran'
      · have once : ((List.finRange 16).map fun j =>
            a.get i * b.get j * 2 ^ (16 * (i.val + j.val))).sum =
              a.get i * 2 ^ (16 * i.val) * value 16 b := by
          rw [value, Finset.mul_sum, ← Fin.sum_univ_def]
          refine Finset.sum_congr rfl fun j _ => ?_
          rw [Nat.mul_add, pow_add]
          ring
        rw [total', total, once, List.map_cons, List.sum_cons]
        ring
      · rw [List.length_cons]
        push_cast
        ring

/-- The first `n` limbs have their upper halves folded in, the others are as they were. -/
private structure Folded (t₀ : Vector Int 31) (n : Nat) (t : Vector Int 31) : Prop where
  done : ∀ i : Fin 15, i.val < n →
    t.get (lower i.castSucc) = t₀.get (lower i.castSucc) + 38 * t₀.get (upper i)
  rest : ∀ k : Fin 31, n ≤ k.val → t.get k = t₀.get k

private theorem Folded.round {t₀ t : Vector Int 31} (small : ∀ k : Fin 31, |t₀.get k| ≤ 2 ^ 44)
    (i : Fin 15) (folded : Folded t₀ i t) :
    ∃ next, fold t i = some next ∧ Folded t₀ (i + 1) next := by
  have low := abs_le.mp (small (lower i.castSucc))
  have high := abs_le.mp (small (upper i))
  have sameLow : t.get (lower i.castSucc) = t₀.get (lower i.castSucc) :=
    folded.rest _ (Nat.le_refl _)
  have sameHigh : t.get (upper i) = t₀.get (upper i) := folded.rest _ (Nat.le_add_left _ _)
  have single : i64 (38 * t.get (upper i)) = some (38 * t₀.get (upper i)) := by
    rw [sameHigh]
    exact i64_eq_some (by omega) (by omega)
  have sum : i64 (t.get (lower i.castSucc) + 38 * t₀.get (upper i)) =
      some (t₀.get (lower i.castSucc) + 38 * t₀.get (upper i)) := by
    rw [sameLow]
    exact i64_eq_some (by omega) (by omega)
  have added : fold t i =
      some (put t (lower i.castSucc) (t₀.get (lower i.castSucc) + 38 * t₀.get (upper i))) :=
    (bind_of_some single _).trans (bind_of_some sum _)
  refine ⟨_, added, fun j below => ?_, fun k above => ?_⟩
  · rw [get_put]
    split
    next same =>
      have place := congrArg Fin.val same
      obtain rfl : i = j := Fin.ext place
      rfl
    next other =>
      have differs : j.val ≠ i.val := fun same => other (Fin.ext same.symm)
      exact folded.done j (by omega)
  · rw [get_put, if_neg (by rintro rfl; exact absurd above (Nat.not_succ_le_self _))]
    exact folded.rest k (by omega)

/-- The upper half is worth 38 times the lower half's weights in the field. -/
private theorem fold_holds (small : ∀ k : Fin 31, |t.get k| ≤ 2 ^ 44) :
    ∃ t', (List.finRange 15).foldlM fold t = some t' ∧
      Holds (Vector.ofFn fun i : Fin 16 => t'.get (lower i)) (2 ^ 50) (value 16 t : ZMod prime) := by
  have start : Folded t 0 t :=
    ⟨fun _ below => absurd below (Nat.not_lt_zero _), fun _ _ => rfl⟩
  rcases forLoop (Folded t) (fun i _ => Folded.round small i) start with ⟨t', ran, folded⟩
  have inner (i : Fin 15) :
      t'.get (lower i.castSucc) = t.get (lower i.castSucc) + 38 * t.get (upper i) :=
    folded.done i i.isLt
  have last : t'.get (lower (Fin.last 15)) = t.get (lower (Fin.last 15)) :=
    folded.rest (lower (Fin.last 15)) (by decide)
  refine ⟨t', ran, ⟨fun j => ?_, ?_⟩⟩
  · rw [Vector.get_ofFn]
    refine Fin.lastCases ?_ (fun i => ?_) j
    · rw [last]
      exact (small (lower (Fin.last 15))).trans (by norm_num)
    · rw [inner]
      have low := abs_le.mp (small (lower i.castSucc))
      have high := abs_le.mp (small (upper i))
      exact abs_le.mpr (by omega)
  · have whole : value 16 t = ∑ i : Fin 16, t.get (lower i) * 2 ^ (16 * i.val) +
        2 ^ 256 * ∑ i : Fin 15, t.get (upper i) * 2 ^ (16 * i.val) := by
      have halves := Fin.sum_univ_add (fun i : Fin (16 + 15) =>
        t.get (show Fin 31 from i) * 2 ^ (16 * i.val))
      refine halves.trans (congrArg _ ?_)
      rw [Finset.mul_sum]
      refine Finset.sum_congr rfl fun i _ => ?_
      have weight : (2 : Int) ^ (16 * (Fin.natAdd 16 i).val) = 2 ^ 256 * 2 ^ (16 * i.val) := by
        rw [Fin.val_natAdd, Nat.mul_add, pow_add]
      rw [weight]
      exact mul_left_comm _ _ _
    have low : value 16 (Vector.ofFn fun i : Fin 16 => t'.get (lower i)) =
        ∑ i : Fin 16, t.get (lower i) * 2 ^ (16 * i.val) +
          38 * ∑ i : Fin 15, t.get (upper i) * 2 ^ (16 * i.val) := by
      have each (i : Fin 15) : t'.get (lower i.castSucc) * 2 ^ (16 * i.castSucc.val) =
          t.get (lower i.castSucc) * 2 ^ (16 * i.castSucc.val) +
            38 * (t.get (upper i) * 2 ^ (16 * i.val)) := by
        rw [inner, Fin.val_castSucc]
        ring
      rw [value_ofFn, Fin.sum_univ_castSucc, last, Finset.sum_congr rfl fun i _ => each i,
        Finset.sum_add_distrib, ← Finset.mul_sum, @Fin.sum_univ_castSucc Int _ 15 fun i =>
          t.get (lower i) * 2 ^ (16 * i.val)]
      exact add_right_comm _ _ _
    rw [whole, low]
    simp only [Int.cast_add, Int.cast_mul, Int.cast_pow, Int.cast_ofNat, cast_wrap]

end Product

/-- Two passes of carries narrow what the products leave. -/
private theorem car25519_twice {o : Gf} {x : ZMod prime} (holds : Holds o (2 ^ 50) x) :
    ∃ r, (car25519 o >>= car25519) = some r ∧ Holds r (2 ^ 17) x := by
  have limits := abs_le.mp (abs_value_le holds.small)
  rcases car25519_holds (holds.mono (by norm_num)) with ⟨once, ran, holds', total⟩
  have quotient : |value 16 o / 2 ^ 256| ≤ 2 ^ 50 := abs_le.mpr (by omega)
  rcases car25519_holds (holds'.mono (by omega)) with ⟨twice, ran', holds'', -⟩
  have quotient' : |value 16 once / 2 ^ 256| ≤ 1 := by
    have limits' := abs_le.mp quotient
    exact abs_le.mpr (by omega)
  refine ⟨twice, ?_, holds''.mono (by omega)⟩
  rw [ran]
  exact ran'

theorem M_holds {a b : Gf} {x y : ZMod prime} (left : Holds a (2 ^ 18) x)
    (right : Holds b (2 ^ 18) y) : ∃ r, M a b = some r ∧ Holds r (2 ^ 17) (x * y) := by
  have empty (k : Fin 31) : |(Vector.replicate 31 (0 : Int)).get k| ≤ 0 := by simp
  have nothing : value 16 (Vector.replicate 31 (0 : Int)) = 0 := by simp [value]
  have count : ((List.finRange 16).length : Int) = 16 := by simp
  rcases rows_spec left.small right.small (List.finRange 16) empty (by omega) with
    ⟨t, multiplied, total, small⟩
  rw [nothing, zero_add, ← Fin.sum_univ_def] at total
  rcases fold_holds (fun k => (small k).trans (by omega)) with ⟨t', folded, element⟩
  have product : ((value 16 t : Int) : ZMod prime) = x * y := by
    rw [total, Int.cast_mul, ← left.field, ← right.field]
    rfl
  rw [product] at element
  rcases car25519_twice element with ⟨r, carried, holds⟩
  refine ⟨r, ?_, holds⟩
  rw [M, multiplied, Option.bind_eq_bind, Option.bind_some, folded, Option.bind_eq_bind,
    Option.bind_some]
  exact carried

theorem S_holds {a : Gf} {x : ZMod prime} (holds : Holds a (2 ^ 18) x) :
    ∃ r, S a = some r ∧ Holds r (2 ^ 17) (x ^ 2) := by
  rw [sq]
  exact M_holds holds holds

/-! ### Inverses -/

theorem invLoop_holds {i c : Gf} {value current : Nat} (element : Holds i (2 ^ 17) value)
    (holds : Holds c (2 ^ 17) current) (a : Nat) :
    ∃ r, invLoop i a c = some r ∧ Holds r (2 ^ 17) (X25519.invLoop value a current) := by
  induction a generalizing c current with
  | zero => exact ⟨c, rfl, holds⟩
  | succ a inductionHypothesis =>
      rcases S_holds (holds.mono (by norm_num)) with ⟨squared, ran, holds'⟩
      rw [← cast_square] at holds'
      rw [invLoop, ran, X25519.invLoop]
      by_cases skipped : a = 2 ∨ a = 4
      · rw [if_pos skipped]
        rcases inductionHypothesis holds' with ⟨r, ran', holds''⟩
        refine ⟨r, ?_, holds''⟩
        show ((if a ≠ 2 ∧ a ≠ 4 then M squared i else some squared) >>= invLoop i a) = some r
        rw [if_neg (by omega)]
        exact ran'
      · rw [if_neg skipped]
        rcases M_holds (holds'.mono (by norm_num)) (element.mono (by norm_num)) with
          ⟨multiplied, ran', holds''⟩
        rw [← cast_mul] at holds''
        rcases inductionHypothesis holds'' with ⟨r, ran'', holds'''⟩
        refine ⟨r, ?_, holds'''⟩
        show ((if a ≠ 2 ∧ a ≠ 4 then M squared i else some squared) >>= invLoop i a) = some r
        rw [if_pos (by omega), ran']
        exact ran''

theorem inv25519_holds {i : Gf} {value : Nat} (element : Holds i (2 ^ 17) value) :
    ∃ r, inv25519 i = some r ∧ Holds r (2 ^ 17) (X25519.inv25519 value) :=
  invLoop_holds element element 254

/-! ### The ladder -/

private theorem xor_comm (p q : Int) : p.xor q = q.xor p := by
  cases p <;> cases q <;> simp [Int.xor, Nat.xor_comm]

private theorem xor_xor (p q : Int) : p.xor (p.xor q) = q := by
  cases p <;> cases q <;> simp [Int.xor]

private theorem xor_zero (p : Int) : p.xor 0 = p := by
  cases p <;> simp [Int.xor]

private theorem land_ones (t : Int) : (-1 : Int).land t = t := by
  cases t with
  | ofNat n =>
      show Int.ofNat (Nat.ldiff n 0) = Int.ofNat n
      exact congrArg _ (Nat.eq_of_testBit_eq fun k => by simp [Nat.testBit_ldiff])
  | negSucc n =>
      show Int.negSucc (0 ||| n) = Int.negSucc n
      rw [Nat.zero_or]

private theorem land_zeros (t : Int) : (0 : Int).land t = 0 := by
  cases t with
  | ofNat n =>
      show Int.ofNat (0 &&& n) = 0
      rw [Nat.zero_and]
      rfl
  | negSucc n =>
      show Int.ofNat (Nat.ldiff 0 n) = Int.ofNat 0
      exact congrArg _ (Nat.eq_of_testBit_eq fun k => by simp [Nat.testBit_ldiff])

/-- The masks swap the two arrays, or leave them. -/
theorem sel25519_eq (p q : Gf) (bit : Bool) :
    sel25519 p q bit.toNat = if bit then (q, p) else (p, q) := by
  have whole (o : Gf) : Vector.ofFn (fun i => o.get i) = o := Vector.ofFn_getElem
  cases bit with
  | false =>
      have mask (t : Int) : (((false.toNat : Nat) : Int) - 1).lnot.land t = 0 := land_zeros t
      simp only [sel25519, mask, Vector.get_ofFn, xor_zero, whole]
      rfl
  | true =>
      have mask (t : Int) : (((true.toNat : Nat) : Int) - 1).lnot.land t = t := land_ones t
      have back (p q : Int) : q.xor (p.xor q) = p := by
        rw [xor_comm p q, xor_xor]
      simp only [sel25519, mask, Vector.get_ofFn, xor_xor, back, whole]
      rfl

/-- Limbs for the four elements of the ladder. -/
structure Ladder.Holds (s : Gf.Ladder) (t : X25519.Ladder) : Prop where
  a : Gf.Holds s.a (2 ^ 17) t.a
  b : Gf.Holds s.b (2 ^ 17) t.b
  c : Gf.Holds s.c (2 ^ 17) t.c
  d : Gf.Holds s.d (2 ^ 17) t.d

theorem Ladder.Holds.sel {s : Gf.Ladder} {t : X25519.Ladder} (holds : s.Holds t) (bit : Bool) :
    (s.sel bit.toNat).Holds (t.sel bit) := by
  rw [Gf.Ladder.sel, sel25519_eq, sel25519_eq]
  cases bit with
  | false => exact holds
  | true => exact ⟨holds.b, holds.a, holds.d, holds.c⟩

section Element

variable {a b : Gf} {x y : Nat}

theorem add_holds (left : Holds a (2 ^ 17) x) (right : Holds b (2 ^ 17) y) :
    ∃ r, A a b = some r ∧ Holds r (2 ^ 18) (add x y : Nat) := by
  rw [cast_add]
  exact A_holds left right

theorem sub_holds (left : Holds a (2 ^ 17) x) (right : Holds b (2 ^ 17) y) :
    ∃ r, Z a b = some r ∧ Holds r (2 ^ 18) (sub x y : Nat) := by
  rw [cast_sub]
  exact Z_holds left right

theorem mul_holds (left : Holds a (2 ^ 18) x) (right : Holds b (2 ^ 18) y) :
    ∃ r, M a b = some r ∧ Holds r (2 ^ 17) (mul x y : Nat) := by
  rw [cast_mul]
  exact M_holds left right

theorem square_holds (holds : Holds a (2 ^ 18) x) :
    ∃ r, S a = some r ∧ Holds r (2 ^ 17) (square x : Nat) :=
  mul_holds holds holds

end Element

theorem a24_holds : Holds a24 (2 ^ 17) (121665 : Nat) :=
  ⟨by decide, by rw [show value 16 a24 = ((121665 : Nat) : Int) by decide, Int.cast_natCast]⟩

theorem Ladder.Holds.step {s : Gf.Ladder} {t : X25519.Ladder} {x : Gf} {point : Nat}
    (element : Gf.Holds x (2 ^ 17) point) (holds : s.Holds t) (bit : Bool) :
    ∃ s', s.step x bit.toNat = some s' ∧ s'.Holds (t.step point bit) := by
  have wide {o : Gf} {v : ZMod prime} (narrow : Gf.Holds o (2 ^ 17) v) : Gf.Holds o (2 ^ 18) v :=
    narrow.mono (by norm_num)
  have start := holds.sel bit
  rcases add_holds start.a start.c with ⟨e, ran₁, e_holds⟩
  rcases sub_holds start.a start.c with ⟨a, ran₂, a_holds⟩
  rcases add_holds start.b start.d with ⟨c, ran₃, c_holds⟩
  rcases sub_holds start.b start.d with ⟨b, ran₄, b_holds⟩
  rcases square_holds e_holds with ⟨d, ran₅, d_holds⟩
  rcases square_holds a_holds with ⟨f, ran₆, f_holds⟩
  rcases mul_holds c_holds a_holds with ⟨a', ran₇, a'_holds⟩
  rcases mul_holds b_holds e_holds with ⟨c', ran₈, c'_holds⟩
  rcases add_holds a'_holds c'_holds with ⟨e', ran₉, e'_holds⟩
  rcases sub_holds a'_holds c'_holds with ⟨a'', ran₁₀, a''_holds⟩
  rcases square_holds a''_holds with ⟨b', ran₁₁, b'_holds⟩
  rcases sub_holds d_holds f_holds with ⟨c'', ran₁₂, c''_holds⟩
  rcases mul_holds c''_holds (wide a24_holds) with ⟨a₃, ran₁₃, a₃_holds⟩
  rcases add_holds a₃_holds d_holds with ⟨a₄, ran₁₄, a₄_holds⟩
  rcases mul_holds c''_holds a₄_holds with ⟨c₃, ran₁₅, c₃_holds⟩
  rcases mul_holds (wide d_holds) (wide f_holds) with ⟨a₅, ran₁₆, a₅_holds⟩
  rcases mul_holds (wide b'_holds) (wide element) with ⟨d', ran₁₇, d'_holds⟩
  rcases square_holds e'_holds with ⟨b'', ran₁₈, b''_holds⟩
  have ends : Ladder.Holds { a := a₅, b := b'', c := c₃, d := d' } ⟨_, _, _, _⟩ :=
    ⟨a₅_holds, b''_holds, c₃_holds, d'_holds⟩
  refine ⟨_, ?_, ends.sel bit⟩
  refine (bind_of_some ran₁ _).trans ?_
  refine (bind_of_some ran₂ _).trans ?_
  refine (bind_of_some ran₃ _).trans ?_
  refine (bind_of_some ran₄ _).trans ?_
  refine (bind_of_some ran₅ _).trans ?_
  refine (bind_of_some ran₆ _).trans ?_
  refine (bind_of_some ran₇ _).trans ?_
  refine (bind_of_some ran₈ _).trans ?_
  refine (bind_of_some ran₉ _).trans ?_
  refine (bind_of_some ran₁₀ _).trans ?_
  refine (bind_of_some ran₁₁ _).trans ?_
  refine (bind_of_some ran₁₂ _).trans ?_
  refine (bind_of_some ran₁₃ _).trans ?_
  refine (bind_of_some ran₁₄ _).trans ?_
  refine (bind_of_some ran₁₅ _).trans ?_
  refine (bind_of_some ran₁₆ _).trans ?_
  refine (bind_of_some ran₁₇ _).trans ?_
  refine (bind_of_some ran₁₈ _).trans ?_
  rfl

end LoraSerial.LinkLayer.X25519.Gf
