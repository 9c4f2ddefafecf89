import Mathlib.Data.Nat.Bitwise

/-!
Owns the sliding anti-replay window over 64-bit counters: the highest counter seen
and a 64-bit mask of the recent ones. Over any number of checks the window refuses
exactly the counters it accepted before and those 64 or more below one of them. Does
not own resets of the window.
-/

namespace LoraSerial.Library

/-- Highest counter seen and, in bit `d`, whether the counter `d` below it was. -/
structure ReplayWindow where
  seeded : Bool
  max : UInt64
  mask : UInt64

namespace ReplayWindow

/-- Check one counter: is it fresh, and the window after the check. -/
def check (window : ReplayWindow) (ctr : UInt64) : Bool × ReplayWindow :=
  if !window.seeded then (true, { seeded := true, max := ctr, mask := 1 })
  else if window.max < ctr then
    let d := ctr - window.max
    let shifted := if 64 ≤ d then 0 else window.mask <<< d
    (true, { window with mask := shifted ||| 1, max := ctr })
  else
    let d := window.max - ctr
    if 64 ≤ d then (false, window)
    else
      let bit := (1 : UInt64) <<< d
      if window.mask &&& bit ≠ 0 then (false, window)
      else (true, { window with mask := window.mask ||| bit })

/-- The counter is not above the highest one, and is too old or marked. -/
structure Seen (window : ReplayWindow) (ctr : UInt64) : Prop where
  seeded : window.seeded = true
  le_max : ctr.toNat ≤ window.max.toNat
  marked : window.max.toNat - ctr.toNat < 64 →
    window.mask.toNat.testBit (window.max.toNat - ctr.toNat) = true

private theorem and_bit_ne_zero (mask : UInt64) {d : UInt64} (short : d.toNat < 64) :
    mask &&& ((1 : UInt64) <<< d) ≠ 0 ↔ mask.toNat.testBit d.toNat = true := by
  have bit : ((1 : UInt64) <<< d).toNat = 2 ^ d.toNat := by
    rw [UInt64.toNat_shiftLeft, UInt64.toNat_one, Nat.mod_eq_of_lt short, Nat.shiftLeft_eq,
      Nat.one_mul]
    exact Nat.mod_eq_of_lt (Nat.pow_lt_pow_right (by decide) short)
  rw [Ne, ← UInt64.toNat_inj, UInt64.toNat_and, bit, UInt64.toNat_zero, Nat.and_two_pow]
  cases mask.toNat.testBit d.toNat <;> simp

private theorem testBit_or_bit (mask : UInt64) {d : UInt64} (short : d.toNat < 64) (index : Nat) :
    (mask ||| ((1 : UInt64) <<< d)).toNat.testBit index =
      (mask.toNat.testBit index || decide (d.toNat = index)) := by
  have bit : ((1 : UInt64) <<< d).toNat = 2 ^ d.toNat := by
    rw [UInt64.toNat_shiftLeft, UInt64.toNat_one, Nat.mod_eq_of_lt short, Nat.shiftLeft_eq,
      Nat.one_mul]
    exact Nat.mod_eq_of_lt (Nat.pow_lt_pow_right (by decide) short)
  rw [UInt64.toNat_or, bit, Nat.testBit_or, Nat.testBit_two_pow]

private theorem testBit_shift (mask : UInt64) {d : UInt64} (short : d.toNat < 64) {index : Nat}
    (below : index < 64) (above : d.toNat ≤ index) :
    (mask <<< d).toNat.testBit index = mask.toNat.testBit (index - d.toNat) := by
  rw [UInt64.toNat_shiftLeft, Nat.mod_eq_of_lt short, Nat.testBit_mod_two_pow,
    Nat.testBit_shiftLeft]
  simp [below, above]

/-- The mask after a jump of `d`. -/
private theorem testBit_jump (mask d : UInt64) {index : Nat} (below : index < 64) :
    ((if 64 ≤ d then 0 else mask <<< d) ||| 1).toNat.testBit index =
      (decide (index = 0) ||
        (decide (d.toNat ≤ index) && mask.toNat.testBit (index - d.toNat))) := by
  have one : (1 : UInt64).toNat.testBit index = decide (index = 0) := by
    rw [UInt64.toNat_one, ← Nat.pow_zero 2, Nat.testBit_two_pow]
    exact decide_eq_decide.mpr eq_comm
  rw [UInt64.toNat_or, Nat.testBit_or, one, Bool.or_comm]
  congr 1
  split
  next far =>
    have far : 64 ≤ d.toNat := UInt64.le_iff_toNat_le.mp far
    rw [UInt64.toNat_zero, Nat.zero_testBit, decide_eq_false (by omega), Bool.false_and]
  next near =>
    have short : d.toNat < 64 := by
      rw [UInt64.le_iff_toNat_le] at near
      exact Nat.lt_of_not_le near
    by_cases above : d.toNat ≤ index
    · rw [testBit_shift mask short below above, decide_eq_true above, Bool.true_and]
    · rw [UInt64.toNat_shiftLeft, Nat.mod_eq_of_lt short, Nat.testBit_mod_two_pow,
        Nat.testBit_shiftLeft, decide_eq_false above]
      simp

/-- What a check can do, with the new mask bit by bit. -/
inductive Checked (window : ReplayWindow) (ctr : UInt64) : Bool × ReplayWindow → Prop
  | first (unseeded : window.seeded = false) :
      Checked window ctr (true, { seeded := true, max := ctr, mask := 1 })
  | jump {mask : UInt64} (seeded : window.seeded = true) (above : window.max.toNat < ctr.toNat)
      (bits : ∀ index < 64, mask.toNat.testBit index =
        (decide (index = 0) || (decide (ctr.toNat - window.max.toNat ≤ index) &&
          window.mask.toNat.testBit (index - (ctr.toNat - window.max.toNat))))) :
      Checked window ctr (true, { seeded := true, max := ctr, mask := mask })
  | fill {mask : UInt64} (seeded : window.seeded = true) (below : ctr.toNat ≤ window.max.toNat)
      (recent : window.max.toNat - ctr.toNat < 64)
      (unmarked : window.mask.toNat.testBit (window.max.toNat - ctr.toNat) = false)
      (bits : ∀ index, mask.toNat.testBit index =
        (window.mask.toNat.testBit index || decide (window.max.toNat - ctr.toNat = index))) :
      Checked window ctr (true, { seeded := true, max := window.max, mask := mask })
  | refuse (seen : window.Seen ctr) : Checked window ctr (false, window)

theorem checked_check (window : ReplayWindow) (ctr : UInt64) :
    window.Checked ctr (window.check ctr) := by
  unfold check
  cases seeded : window.seeded with
  | false => exact .first seeded
  | true =>
      simp only [Bool.not_true, Bool.false_eq_true, if_false]
      split
      next above =>
        have above := UInt64.lt_iff_toNat_lt.mp above
        have distance : (ctr - window.max).toNat = ctr.toNat - window.max.toNat :=
          UInt64.toNat_sub_of_le _ _ (UInt64.le_iff_toNat_le.mpr (Nat.le_of_lt above))
        refine .jump seeded above fun index below => ?_
        rw [testBit_jump _ _ below, distance]
      next notAbove =>
        have below : ctr.toNat ≤ window.max.toNat := by
          rw [UInt64.lt_iff_toNat_lt] at notAbove
          exact Nat.le_of_not_lt notAbove
        have distance : (window.max - ctr).toNat = window.max.toNat - ctr.toNat :=
          UInt64.toNat_sub_of_le _ _ (UInt64.le_iff_toNat_le.mpr below)
        split
        next old =>
          have old : 64 ≤ (window.max - ctr).toNat := UInt64.le_iff_toNat_le.mp old
          exact .refuse ⟨seeded, below, fun recent => by omega⟩
        next recent =>
          have short : (window.max - ctr).toNat < 64 := by
            rw [UInt64.le_iff_toNat_le] at recent
            exact Nat.lt_of_not_le recent
          split
          next marked =>
            rw [and_bit_ne_zero _ short, distance] at marked
            exact .refuse ⟨seeded, below, fun _ => marked⟩
          next unmarked =>
            rw [and_bit_ne_zero _ short, distance, Bool.not_eq_true] at unmarked
            refine .fill seeded below (distance ▸ short) unmarked fun index => ?_
            rw [testBit_or_bit _ short, distance]

/-- A counter that was seen is refused. -/
theorem check_of_seen {window : ReplayWindow} {ctr : UInt64} (seen : window.Seen ctr) :
    (window.check ctr).1 = false := by
  have ordered := seen.le_max
  have checked := window.checked_check ctr
  generalize window.check ctr = outcome at checked
  cases checked with
  | first unseeded => exact absurd seen.seeded (by simp [unseeded])
  | jump _ above _ => omega
  | fill _ _ recent unmarked _ => exact absurd (seen.marked recent) (by simp [unmarked])
  | refuse _ => rfl

/-- A refused counter was seen, and changes nothing. -/
theorem check_of_refused {window : ReplayWindow} {ctr : UInt64}
    (refused : (window.check ctr).1 = false) :
    window.Seen ctr ∧ (window.check ctr).2 = window := by
  have checked := window.checked_check ctr
  generalize window.check ctr = outcome at checked refused
  cases checked with
  | first _ | jump _ _ _ | fill _ _ _ _ _ => cases refused
  | refuse seen => exact ⟨seen, rfl⟩

theorem seen_of_refused {window : ReplayWindow} {ctr : UInt64}
    (refused : (window.check ctr).1 = false) : window.Seen ctr :=
  (check_of_refused refused).1

/-- Being seen by a seeded window. -/
private theorem seen_mk {max mask ctr : UInt64} :
    Seen ⟨true, max, mask⟩ ctr ↔ ctr.toNat ≤ max.toNat ∧
      (max.toNat - ctr.toNat < 64 → mask.toNat.testBit (max.toNat - ctr.toNat) = true) :=
  ⟨fun seen => ⟨seen.le_max, seen.marked⟩, fun ⟨ordered, marked⟩ => ⟨rfl, ordered, marked⟩⟩

/-- What is seen after an accepted counter: the counter, what is too old for it, and what
was seen before. -/
theorem seen_check_iff {window : ReplayWindow} {ctr : UInt64}
    (fresh : (window.check ctr).1 = true) (other : UInt64) :
    (window.check ctr).2.Seen other ↔
      other = ctr ∨ other.toNat + 64 ≤ ctr.toNat ∨ window.Seen other := by
  have checked := window.checked_check ctr
  generalize window.check ctr = outcome at checked fresh
  rw [← UInt64.toNat_inj]
  cases checked with
  | first unseeded =>
      have unseen : ¬window.Seen other := fun seen =>
        absurd seen.seeded (by simp [unseeded])
      have one : ∀ index, (1 : UInt64).toNat.testBit index = decide (0 = index) := fun index => by
        rw [UInt64.toNat_one, ← Nat.pow_zero 2, Nat.testBit_two_pow]
      simp only [seen_mk, one, decide_eq_true_eq, unseen, or_false]
      omega
  | jump seeded above bits =>
      rw [seen_mk]
      constructor
      · rintro ⟨ordered, marked⟩
        by_cases recent : ctr.toNat - other.toNat < 64
        · have marked := marked recent
          rw [bits _ recent, Bool.or_eq_true, Bool.and_eq_true, decide_eq_true_eq,
            decide_eq_true_eq] at marked
          rcases marked with same | ⟨shifted, marked⟩
          · exact Or.inl (by omega)
          · refine Or.inr (Or.inr ⟨seeded, by omega, fun _ => ?_⟩)
            rwa [show window.max.toNat - other.toNat =
              ctr.toNat - other.toNat - (ctr.toNat - window.max.toNat) by omega]
        · exact Or.inr (Or.inl (by omega))
      · rintro (same | tooOld | ⟨-, ordered, marked⟩)
        · refine ⟨by omega, fun recent => ?_⟩
          rw [bits _ recent, decide_eq_true (by omega), Bool.true_or]
        · exact ⟨by omega, fun recent => by omega⟩
        · refine ⟨by omega, fun recent => ?_⟩
          rw [bits _ recent, decide_eq_true (by omega : ctr.toNat - window.max.toNat ≤ _),
            Bool.true_and, show ctr.toNat - other.toNat - (ctr.toNat - window.max.toNat) =
              window.max.toNat - other.toNat by omega, marked (by omega), Bool.or_true]
  | fill seeded below recent unmarked bits =>
      rw [seen_mk]
      simp only [bits, Bool.or_eq_true, decide_eq_true_eq]
      constructor
      · rintro ⟨ordered, marked⟩
        by_cases near : window.max.toNat - other.toNat < 64
        · rcases marked near with marked | same
          · exact Or.inr (Or.inr ⟨seeded, ordered, fun _ => marked⟩)
          · exact Or.inl (by omega)
        · exact Or.inr (Or.inr ⟨seeded, ordered, fun recent => absurd recent near⟩)
      · rintro (same | tooOld | ⟨-, ordered, marked⟩)
        · exact ⟨by omega, fun _ => Or.inr (by rw [same])⟩
        · exact ⟨by omega, fun near => by omega⟩
        · exact ⟨ordered, fun near => Or.inl (marked near)⟩
  | refuse _ => cases fresh

/-- An accepted counter is seen afterwards. -/
theorem seen_of_check {window : ReplayWindow} {ctr : UInt64}
    (fresh : (window.check ctr).1 = true) : (window.check ctr).2.Seen ctr :=
  (seen_check_iff fresh ctr).mpr (Or.inl rfl)

/-- What was seen stays seen over any check. -/
theorem Seen.check {window : ReplayWindow} {old : UInt64} (seen : window.Seen old)
    (ctr : UInt64) : (window.check ctr).2.Seen old := by
  cases fresh : (window.check ctr).1 with
  | false =>
      rw [(check_of_refused fresh).2]
      exact seen
  | true => exact (seen_check_iff fresh old).mpr (Or.inr (Or.inr seen))

/-- The window has seen exactly the accepted counters and what is too old for one of them. -/
def Remembers (window : ReplayWindow) (accepted : List UInt64) : Prop :=
  ∀ ctr, window.Seen ctr ↔
    ctr ∈ accepted ∨ ∃ newer ∈ accepted, ctr.toNat + 64 ≤ newer.toNat

theorem remembers_unseeded {window : ReplayWindow} (unseeded : window.seeded = false) :
    window.Remembers [] := by
  refine fun ctr => ⟨fun seen => absurd seen.seeded (by simp [unseeded]), ?_⟩
  simp

namespace Remembers

variable {window : ReplayWindow} {accepted : List UInt64}

/-- The answer to the next check. -/
theorem check_iff (remembers : window.Remembers accepted) (ctr : UInt64) :
    (window.check ctr).1 = true ↔
      ctr ∉ accepted ∧ ∀ newer ∈ accepted, newer.toNat < ctr.toNat + 64 := by
  have fresh : (window.check ctr).1 = true ↔ ¬window.Seen ctr := by
    rw [← Bool.not_eq_false]
    exact not_congr ⟨seen_of_refused, check_of_seen⟩
  rw [fresh, remembers ctr, not_or]
  simp only [not_exists, not_and, Nat.not_le]

/-- An accepted counter joins the accepted ones. -/
theorem accept (remembers : window.Remembers accepted) {ctr : UInt64}
    (fresh : (window.check ctr).1 = true) :
    (window.check ctr).2.Remembers (ctr :: accepted) := by
  intro other
  rw [seen_check_iff fresh, remembers other]
  simp only [List.mem_cons, exists_eq_or_imp]
  tauto

/-- A refused counter leaves the window as it was. -/
theorem refuse (remembers : window.Remembers accepted) {ctr : UInt64}
    (refused : (window.check ctr).1 = false) : (window.check ctr).2.Remembers accepted := by
  rw [(check_of_refused refused).2]
  exact remembers

end Remembers

/-- No counter above `bound` was seen. -/
def Under (window : ReplayWindow) (bound : UInt64) : Prop :=
  window.seeded = true → window.max ≤ bound

theorem Under.mono {window : ReplayWindow} {low high : UInt64} (under : window.Under low)
    (ordered : low ≤ high) : window.Under high :=
  fun seeded => UInt64.le_trans (under seeded) ordered

theorem Under.check {window : ReplayWindow} {bound ctr : UInt64} (under : window.Under bound)
    (below : ctr ≤ bound) : (window.check ctr).2.Under bound := by
  simp only [Under, ReplayWindow.check] at under ⊢
  split
  · exact fun _ => below
  next seeded =>
    have seeded : window.seeded = true := by simpa using seeded
    split
    · exact fun _ => below
    · split
      · exact under
      · split <;> exact fun _ => under seeded

/-- Counters above the bound are new. -/
theorem Under.unseen {window : ReplayWindow} {bound ctr : UInt64} (under : window.Under bound)
    (above : bound < ctr) : ¬window.Seen ctr := by
  intro seen
  have highest := UInt64.le_iff_toNat_le.mp (under seen.seeded)
  have ordered := seen.le_max
  rw [UInt64.lt_iff_toNat_lt] at above
  omega

end ReplayWindow

end LoraSerial.Library
