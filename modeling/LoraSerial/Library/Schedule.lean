import LoraSerial.Library.Run
import Mathlib.Order.WellFounded

/-!
Owns runs without an end of a deterministic machine: the state after each number of steps,
what every step keeps, and the point from which a bounded potential stays.
-/

namespace LoraSerial.Library.Run

variable {σ α : Type*} {step : σ → α → σ} {start : σ} {schedule : Nat → α}

/-- The state after the first `n` actions of a schedule. -/
def trace (step : σ → α → σ) (start : σ) (schedule : Nat → α) : Nat → σ
  | 0 => start
  | n + 1 => step (trace step start schedule n) (schedule n)

theorem trace_succ (n : Nat) : trace step start schedule (n + 1) =
    step (trace step start schedule n) (schedule n) := rfl

/-- What every step keeps from some point on. -/
theorem trace_from (holds : σ → Prop) {n : Nat} (here : holds (trace step start schedule n))
    (keeps : ∀ m, n ≤ m → holds (trace step start schedule m) →
      holds (trace step start schedule (m + 1))) :
    ∀ m, n ≤ m → holds (trace step start schedule m) := by
  intro m later
  induction m, later using Nat.le_induction with
  | base => exact here
  | succ m later inductionHypothesis => exact keeps m later inductionHypothesis

theorem trace_invariant (holds : σ → Prop) (first : holds start)
    (keeps : ∀ n, holds (trace step start schedule n) →
      holds (trace step start schedule (n + 1))) :
    ∀ n, holds (trace step start schedule n) :=
  fun n => trace_from holds (n := 0) first (fun m _ => keeps m) n n.zero_le

/-- What some later action sets and every step keeps holds from some point on. -/
theorem eventually_of_set (holds : σ → Prop) (sets : α → Prop) {n : Nat}
    (occurs : ∃ m, n ≤ m ∧ sets (schedule m))
    (set : ∀ m, n ≤ m → sets (schedule m) → holds (trace step start schedule (m + 1)))
    (keeps : ∀ m, n ≤ m → holds (trace step start schedule m) →
      holds (trace step start schedule (m + 1))) :
    ∃ m, n ≤ m ∧ ∀ k, m ≤ k → holds (trace step start schedule k) := by
  obtain ⟨m, later, here⟩ := occurs
  have above : n ≤ m + 1 := Nat.le_succ_of_le later
  exact ⟨m + 1, above, trace_from holds (set m later here) fun k after =>
    keeps k (Nat.le_trans above after)⟩

/-- A potential that no step raises stays the same from some point on. -/
theorem eventually_still (potential : σ → Nat)
    (falls : ∀ n, potential (trace step start schedule (n + 1)) ≤
      potential (trace step start schedule n)) :
    ∃ n, ∀ m, n ≤ m → potential (trace step start schedule m) =
      potential (trace step start schedule n) := by
  have antitone : Antitone fun n => potential (trace step start schedule n) :=
    antitone_nat_of_succ_le falls
  have least := fun m =>
    Function.argmin_le (fun n => potential (trace step start schedule n)) m
  exact ⟨_, fun m later => Nat.le_antisymm (antitone later) (least m)⟩

end LoraSerial.Library.Run
