import LoraSerial.LinkLayer.Replay
import Mathlib.Data.Finset.Max

/-!
Owns what `ReplayOk` answers over its whole history: since the window was last
unseeded it accepts a counter exactly when it is the first, or was not accepted before
and is less than 64 below the largest accepted one.
-/

namespace LoraSerial.LinkLayer.Link

open Library

variable {RING : Nat}

/-- The calls of `ReplayOk` since the window was last unseeded, latest first, each with
its answer. Between two calls anything may change but the window. -/
inductive Asked : Link RING → List (UInt64 × Bool) → Prop
  | unseeded {link : Link RING} (unseeded : link.rxCtrInit = false) : Asked link []
  | call {link : Link RING} {calls : List (UInt64 × Bool)} (asked : Asked link calls)
      (ctr : UInt64) :
      Asked (link.replayOk ctr).2 ((ctr, (link.replayOk ctr).1) :: calls)
  | other {link next : Link RING} {calls : List (UInt64 × Bool)} (asked : Asked link calls)
      (same : next.replayWindow = link.replayWindow) : Asked next calls

/-- The counters that were answered with true. -/
def acceptedCounters (calls : List (UInt64 × Bool)) : List UInt64 :=
  (calls.filter Prod.snd).map Prod.fst

theorem mem_acceptedCounters {calls : List (UInt64 × Bool)} {ctr : UInt64} :
    ctr ∈ acceptedCounters calls ↔ (ctr, true) ∈ calls := by
  simp [acceptedCounters]

/-- The largest counter accepted so far. -/
def LargestAccepted (calls : List (UInt64 × Bool)) (largest : UInt64) : Prop :=
  (largest, true) ∈ calls ∧ ∀ ctr, (ctr, true) ∈ calls → ctr.toNat ≤ largest.toNat

namespace Asked

variable {link : Link RING} {calls : List (UInt64 × Bool)}

/-- The window remembers the accepted counters. -/
theorem remembers (asked : Asked link calls) :
    link.replayWindow.Remembers (acceptedCounters calls) := by
  induction asked with
  | unseeded unseeded => exact ReplayWindow.remembers_unseeded unseeded
  | @call link calls _ ctr inductionHypothesis =>
      rw [replayWindow_replayOk, replayOk_eq]
      cases answer : (link.replayWindow.check ctr).1 with
      | true => exact inductionHypothesis.accept answer
      | false => exact inductionHypothesis.refuse answer
  | other _ same inductionHypothesis => exact same ▸ inductionHypothesis

/-- The first call was accepted. -/
theorem accepted_ne_nil (asked : Asked link calls) (later : calls ≠ []) :
    acceptedCounters calls ≠ [] := by
  induction asked with
  | unseeded _ => exact absurd rfl later
  | @call link calls asked ctr inductionHypothesis =>
      by_cases first : calls = []
      · subst first
        have fresh := (asked.remembers.check_iff ctr).mpr (by simp [acceptedCounters])
        rw [replayOk_eq]
        simp [acceptedCounters, fresh]
      · have accepted := inductionHypothesis first
        obtain ⟨newest, member⟩ := List.exists_mem_of_ne_nil _ accepted
        rw [mem_acceptedCounters] at member
        exact List.ne_nil_of_mem (mem_acceptedCounters.mpr (List.mem_cons_of_mem _ member))
  | other _ _ inductionHypothesis => exact inductionHypothesis later

/-- After the first call there is a largest accepted counter. -/
theorem exists_largestAccepted (asked : Asked link calls) (later : calls ≠ []) :
    ∃ largest, LargestAccepted calls largest := by
  have nonempty : (acceptedCounters calls).toFinset.Nonempty :=
    List.toFinset_nonempty_iff _ |>.mpr (asked.accepted_ne_nil later)
  obtain ⟨largest, member, bound⟩ :=
    (acceptedCounters calls).toFinset.exists_max_image UInt64.toNat nonempty
  simp only [List.mem_toFinset, mem_acceptedCounters] at member bound
  exact ⟨largest, member, bound⟩

/-! ### The calls a run makes -/

theorem trackEpoch (asked : Asked link calls) (epoch : UInt8) :
    ∃ later, Asked (link.trackEpoch epoch) later := by
  rcases link.trackEpoch_cases epoch with ⟨tracked, -⟩ | ⟨tracked, -⟩ <;> rw [tracked]
  · exact ⟨calls, .other asked rfl⟩
  · exact ⟨[], .unseeded rfl⟩

theorem authenticate (asked : Asked link calls) (heatshrink : Heatshrink) (input : Bytes)
    (h : Header) (body : Bytes) :
    ∃ later, Asked (link.authenticate heatshrink input h body).1 later := by
  rcases link.replayWindow_authenticate heatshrink input h body with same | ⟨-, checked⟩
  · exact ⟨calls, .other asked same⟩
  · exact ⟨_, .other (asked.call _) (checked.trans (replayWindow_replayOk _ _).symm)⟩

theorem onRx (asked : Asked link calls) (heatshrink : Heatshrink) (input : Bytes) :
    ∃ later, Asked (link.onRx heatshrink input).link later := by
  unfold Link.onRx
  cases parseHeader input with
  | none => exact ⟨calls, asked⟩
  | some parsed =>
      obtain ⟨h, body⟩ := parsed
      simp only
      split
      · exact ⟨calls, asked⟩
      · obtain ⟨tracked, askedTracked⟩ := asked.trackEpoch h.epoch
        obtain ⟨later, opened⟩ := askedTracked.authenticate heatshrink input h body
        split
        · exact ⟨later, opened⟩
        · exact ⟨later, .other opened (congrArg (fun state => state.2.1)
            (Link.guardState_accept _ h _))⟩

/-- No operation touches the window but through `ReplayOk`, or by unseeding it. -/
theorem apply (asked : Asked link calls) (heatshrink : Heatshrink) (op : Op) :
    ∃ later, Asked (link.apply heatshrink op) later := by
  have keep {next : Link RING} (same : next.guardState = link.guardState) :
      ∃ later, Asked next later :=
    ⟨calls, .other asked (congrArg (fun state => state.2.1) same)⟩
  cases op with
  | init c => exact ⟨[], .unseeded rfl⟩
  | newSession => exact keep rfl
  | setTiming window retransmitMs => exact keep rfl
  | write d => exact keep (link.guardState_write d)
  | read max => exact keep (link.guardState_read max)
  | takeGotData => exact keep rfl
  | takePeerReset => exact keep rfl
  | takeValidRx => exact keep rfl
  | setCtrlTx bits => exact keep rfl
  | setAuxTx aux => exact keep rfl
  | beginTurn => exact keep rfl
  | nextTx cap now => exact keep (link.guardState_nextTx heatshrink cap now)
  | makePoll cap => exact keep (link.guardState_encode heatshrink cap 0 0 [])
  | onRx input => exact asked.onRx heatshrink input

/-- Every link a run reaches from `Init` has such a history. -/
theorem of_run (heatshrink : Heatshrink) (memory : Link RING) (c : Config) (ops : List Op) :
    ∃ calls, Asked ((memory.init c).run heatshrink ops) calls := by
  have run : ∀ {link : Link RING} {calls}, Asked link calls →
      ∃ later, Asked (link.run heatshrink ops) later := by
    induction ops with
    | nil => exact fun asked => ⟨_, asked⟩
    | cons op rest inductionHypothesis =>
        intro link calls asked
        obtain ⟨_, next⟩ := asked.apply heatshrink op
        exact inductionHypothesis next
  exact run (.unseeded rfl)

/-! ### The answer -/

/-- `ReplayOk` is exact: the first call is accepted, and a later one exactly when its
counter was not accepted before and is above the largest accepted one less 64. -/
theorem replayOk_exact (asked : Asked link calls) (ctr : UInt64) :
    (link.replayOk ctr).1 = true ↔
      calls = [] ∨
        (ctr, true) ∉ calls ∧
          ∃ largest, LargestAccepted calls largest ∧ largest.toNat < ctr.toNat + 64 := by
  rw [replayOk_eq]
  by_cases first : calls = []
  · subst first
    have fresh := (asked.remembers.check_iff ctr).mpr (by simp [acceptedCounters])
    exact ⟨fun _ => Or.inl rfl, fun _ => fresh⟩
  · obtain ⟨largest, accepted, bound⟩ := asked.exists_largestAccepted first
    rw [asked.remembers.check_iff ctr, mem_acceptedCounters]
    simp only [mem_acceptedCounters]
    constructor
    · rintro ⟨fresh, recent⟩
      exact Or.inr ⟨fresh, largest, ⟨accepted, bound⟩, recent largest accepted⟩
    · rintro (none | ⟨fresh, top, ⟨-, highest⟩, recent⟩)
      · exact absurd none first
      · exact ⟨fresh, fun newer member => Nat.lt_of_le_of_lt (highest newer member) recent⟩

/-- A jump from 5 to the last counter, and a late counter 63 below it. -/
theorem replayOk_exact_jump :
    ((((Link.zeroed Config.default : Link 64).replayOk 5).2.replayOk
      0xFFFFFFFFFFFFFFFF).2.replayOk 0xFFFFFFFFFFFFFFC0).1 = true := by
  have unasked : Asked (Link.zeroed Config.default : Link 64) [] := .unseeded rfl
  refine (replayOk_exact ((unasked.call 5).call 0xFFFFFFFFFFFFFFFF) _).mpr (Or.inr ?_)
  refine ⟨by decide, 0xFFFFFFFFFFFFFFFF, ⟨by decide, fun ctr _ => ?_⟩, by decide⟩
  exact Nat.le_of_lt_succ ctr.toNat_lt

end Asked

end LoraSerial.LinkLayer.Link
