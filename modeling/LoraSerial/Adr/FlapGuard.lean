import LoraSerial.Adr.Controller
import LoraSerial.Library.Run

/-!
Owns the flap guard: after a fallback the controller should ask only for modes below the
failed one until the penalty is over.
-/

namespace LoraSerial.Adr

open Library.Run

namespace Controller

variable {F : Type} [Add F] [LE F] [DecidableLE F]

/-- An event of the run at its true time. -/
def after (c : Controller F) (timed : Nat × Event F) : Controller F :=
  c.step (timed.2.at timed.1)

/-- Until the penalty is over, no tick asks for the failed mode or a faster one. -/
def KeepsBelow (fellBack failed : Nat) (c : Controller F) (timed : Nat × Event F) : Prop :=
  timed.1 < fellBack + c.cfg.fallbackPenaltyMs.toNat →
    match timed.2.at timed.1 with
    | .tick i => ∀ mode, (c.decide i).1 = .request mode →
        c.ladder.rank mode < c.ladder.rank (some failed)
    | _ => True

/-- The tick cannot go wrong: loss sends it below the failed mode, or the guard is up and
has a mode below the failed one to offer. -/
structure Guards (c : Controller F) (i : In F) (cur failed : Nat) : Prop where
  loss : c.Flees (c.coolingDown i.now) i cur →
    c.ladder.moreRobust cur = some cur ∨
      c.ladder.rank (c.ladder.moreRobust cur) < c.ladder.rank (some failed)
  up : c.Chooses (c.coolingDown i.now) i cur → i.now < c.penalizedUntil →
    c.ladder.moreRobust failed ≠ some failed ∨ cur = failed ∨
      c.ladder.rank (c.wanted i cur) < c.ladder.rank (some failed)
  down : c.Chooses (c.coolingDown i.now) i cur → ¬i.now < c.penalizedUntil →
    c.wanted i cur = some cur ∨
      c.ladder.rank (c.wanted i cur) < c.ladder.rank (some failed) ∨
      ¬c.Confirms i cur (c.wanted i cur)

def StaysGuarded (fellBack failed : Nat) (c : Controller F) (timed : Nat × Event F) : Prop :=
  timed.1 < fellBack + c.cfg.fallbackPenaltyMs.toNat →
    match timed.2.at timed.1 with
    | .tick i => ∀ cur, c.Guards i cur failed
    | _ => True

/-- A tick of a run: the current mode is one of the table, and no other fallback happens. -/
def Ticks (count : Nat) : Event F → Prop
  | .tick i => ∃ cur < count, i.cur = some cur
  | .fallback _ _ => False
  | .enableGfsk _ => True

variable {c : Controller F} {i : In F} {cur failed : Nat}

/-! ### One tick -/

theorem caps_iff (penalized : c.penalized = some failed) :
    c.Caps i cur failed ↔ i.now < c.penalizedUntil ∧
      c.ladder.rank (some failed) ≤ c.ladder.rank (c.wanted i cur) := by
  simp [Caps, guarding, penalized]

theorem eq_of_caps (penalized : c.penalized = some failed) {other : Nat}
    (caps : c.Caps i cur other) : other = failed :=
  Option.some.inj (caps.1.symm.trans penalized)

/-- The signal's request, when the guard does not cap it. -/
theorem request_wanted (chooses : c.Chooses (c.coolingDown i.now) i cur)
    (free : ∀ other, ¬c.Caps i cur other) (moves : c.wanted i cur ≠ some cur)
    (confirms : c.Confirms i cur (c.wanted i cur)) :
    (c.decide i).1 = .request (c.wanted i cur) := by
  refine request_iff.mpr ⟨cur, Or.inr ⟨chooses, ?_, ?_, (capped_of_not_caps free).symm⟩⟩
  · rw [capped_of_not_caps free]
    exact moves
  · rw [capped_of_not_caps free]
    exact confirms

/-- A tick keeps below the failed mode exactly when it is guarded. -/
theorem below_iff (sorted : c.ladder.GfskLast) (penalized : c.penalized = some failed)
    (failedInside : failed < c.ladder.count) (curInside : cur < c.ladder.count)
    (current : i.cur = some cur) :
    (∀ mode, (c.decide i).1 = .request mode →
        c.ladder.rank mode < c.ladder.rank (some failed)) ↔ c.Guards i cur failed := by
  constructor
  · intro below
    refine ⟨fun flees => ?_, fun chooses up => ?_, fun chooses down => ?_⟩
    · by_cases stays : c.ladder.moreRobust cur = some cur
      · exact Or.inl stays
      · exact Or.inr (below _ (request_iff.mpr ⟨cur, Or.inl ⟨flees, stays, rfl⟩⟩))
    · by_contra wrong
      obtain ⟨bottom, rest⟩ := not_or.mp wrong
      obtain ⟨elsewhere, above⟩ := not_or.mp rest
      rw [Classical.not_not] at bottom
      have lora : c.ladder.isFsk cur = false := by
        simpa [Ladder.fskAt, curInside] using chooses.lora
      have slower := Ladder.slower_of_bottom failedInside bottom curInside lora
      have target := capped_of_caps ((caps_iff penalized).mpr ⟨up, Int.not_lt.mp above⟩)
      rw [bottom] at target
      have asked : (c.decide i).1 = .request (some failed) := by
        refine request_iff.mpr ⟨cur, Or.inr ⟨chooses, ?_, fun faster => ?_, target.symm⟩⟩
        · rw [target]
          exact fun same => elsewhere (Option.some.inj same).symm
        · rw [target, Ladder.faster, decide_eq_true_iff] at faster
          exact absurd faster (Int.not_lt.mpr slower)
      exact Int.lt_irrefl _ (below _ asked)
    · by_contra wrong
      obtain ⟨moves, rest⟩ := not_or.mp wrong
      obtain ⟨above, confirms⟩ := not_or.mp rest
      rw [Classical.not_not] at confirms
      have free : ∀ other, ¬c.Caps i cur other := by
        intro other caps
        obtain rfl := eq_of_caps penalized caps
        exact down ((caps_iff penalized).mp caps).1
      exact absurd (below _ (request_wanted chooses free moves confirms)) above
  · intro guards mode asked
    obtain ⟨other, ⟨flees, moves, rfl⟩ | ⟨chooses, away, confirms, rfl⟩⟩ := request_iff.mp asked
    · obtain rfl : other = cur := Option.some.inj (flees.current.symm.trans current)
      exact (guards.loss flees).resolve_left moves
    · obtain rfl : other = cur := Option.some.inj (chooses.current.symm.trans current)
      by_cases caps : c.Caps i other failed
      · rw [capped_of_caps caps] at away ⊢
        obtain ⟨up, above⟩ := (caps_iff penalized).mp caps
        rcases guards.up chooses up with moves | rfl | below
        · exact sorted.moreRobust_slower failedInside moves
        · exact sorted.moreRobust_slower failedInside away
        · exact absurd below (Int.not_lt.mpr above)
      · have free : ∀ other', ¬c.Caps i other other' := by
          intro other' caps'
          obtain rfl := eq_of_caps penalized caps'
          exact caps caps'
        rw [capped_of_not_caps free] at away confirms ⊢
        by_cases up : i.now < c.penalizedUntil
        · by_contra above
          exact caps ((caps_iff penalized).mpr ⟨up, Int.not_lt.mp above⟩)
        · rcases guards.down chooses up with stays | below | unconfirmed
          · exact absurd stays away
          · exact below
          · exact absurd confirms unconfirmed

/-! ### Every run -/

/-- The penalty of `failed` is in force on a ladder. -/
structure Penalizes (c : Controller F) (failed : Nat) : Prop where
  sorted : c.ladder.GfskLast
  inside : failed < c.ladder.count
  penalized : c.penalized = some failed

theorem Penalizes.after (penalizes : c.Penalizes failed) {count : Nat}
    {timed : Nat × Event F} (ticks : Ticks count timed.2) : (c.after timed).Penalizes failed := by
  have ladder : (c.after timed).ladder = c.ladder := c.step_ladder _
  refine ⟨ladder.symm ▸ penalizes.sorted, ladder.symm ▸ penalizes.inside, ?_⟩
  obtain ⟨time, event⟩ := timed
  cases event with
  | tick i => exact (c.decideBy_frame _ _ _).2.2.1.trans penalizes.penalized
  | fallback now mode => exact absurd ticks not_false
  | enableGfsk enabled => exact penalizes.penalized

/-- One event of a run. -/
theorem keepsBelow_iff (penalizes : c.Penalizes failed) (fellBack : Nat)
    {timed : Nat × Event F} (ticks : Ticks c.ladder.count timed.2) :
    c.KeepsBelow fellBack failed timed ↔ c.StaysGuarded fellBack failed timed := by
  obtain ⟨time, event⟩ := timed
  refine forall_congr' fun _ => ?_
  cases event with
  | tick i =>
      obtain ⟨cur, curInside, current⟩ := ticks
      have current : ({ i with now := UInt32.ofNat time } : In F).cur = some cur := current
      refine (below_iff penalizes.sorted penalizes.penalized penalizes.inside curInside
        current).trans ?_
      constructor
      · intro guards other
        by_cases same : other = cur
        · rw [same]
          exact guards
        · have elsewhere : i.cur ≠ some other := by
            rw [current]
            exact fun found => same (Option.some.inj found).symm
          exact ⟨fun flees => absurd flees.current elsewhere,
            fun chooses => absurd chooses.current elsewhere,
            fun chooses => absurd chooses.current elsewhere⟩
      · exact fun guards => guards cur
  | fallback | enableGfsk => exact Iff.rfl

/-- After a fallback from `failed`, whatever the controller did before, a run of ticks asks
only for modes below `failed` until the penalty is over exactly when every tick is guarded. -/
theorem flapGuard_iff (c : Controller F) (sorted : c.ladder.GfskLast)
    (failed : Nat) (inside : failed < c.ladder.count) (fellBack : Nat)
    (events : List (Nat × Event F)) (ticks : ∀ timed ∈ events, Ticks c.ladder.count timed.2) :
    Along after (KeepsBelow fellBack failed)
        (c.onFallback (UInt32.ofNat fellBack) (some failed)) events ↔
      Along after (StaysGuarded fellBack failed)
        (c.onFallback (UInt32.ofNat fellBack) (some failed)) events := by
  have penalizes : (c.onFallback (UInt32.ofNat fellBack) (some failed)).Penalizes failed :=
    ⟨sorted, inside, rfl⟩
  have ladder : (c.onFallback (UInt32.ofNat fellBack) (some failed)).ladder = c.ladder := rfl
  rw [← ladder] at ticks
  clear ladder inside sorted
  generalize c.onFallback (UInt32.ofNat fellBack) (some failed) = state at *
  induction events generalizing state with
  | nil => exact Iff.rfl
  | cons timed rest inductionHypothesis =>
      have here := ticks timed List.mem_cons_self
      rw [along_cons, along_cons, keepsBelow_iff penalizes fellBack here]
      refine and_congr_right fun _ => inductionHypothesis _ (fun later member => ?_)
        (penalizes.after here)
      have same : (state.after timed).ladder = state.ladder := state.step_ladder _
      rw [same]
      exact ticks later (List.mem_cons_of_mem _ member)

end Controller

/-- Weak on 'medium', no loss. -/
def weakTick : In Int where
  now := 0
  busy := false
  haveLink := true
  cur := some 2
  snr := -60
  rssi := -200
  retxPct := 0

/-- 'far' died, and 'medium' is weak 31 s later. -/
theorem flapGuard_iff_far :
    Along Controller.after (Controller.KeepsBelow 10000 4)
        ((Controller.fresh firmwareLadder firmwareConfig).onFallback (UInt32.ofNat 10000) (some 4))
        [(41000, .tick weakTick)] ↔
      Along Controller.after (Controller.StaysGuarded 10000 4)
        ((Controller.fresh firmwareLadder firmwareConfig).onFallback (UInt32.ofNat 10000) (some 4))
        [(41000, .tick weakTick)] :=
  Controller.flapGuard_iff (.fresh firmwareLadder firmwareConfig)
    (by unfold Ladder.GfskLast; decide) 4 (by decide) 10000 _ (by
      intro timed member
      obtain rfl := List.mem_singleton.mp member
      exact ⟨2, by decide, rfl⟩)

/-- 'far' died, and 31 s later the controller asks for it again. -/
theorem asks_for_failed :
    ¬∀ (ladder : Ladder Int) (cfg : Config Int) (failed fellBack : Nat)
      (events : List (Nat × Event Int)), ladder.GfskLast → failed < ladder.count →
        (∀ timed ∈ events, Controller.Ticks ladder.count timed.2) →
        Along Controller.after (Controller.KeepsBelow fellBack failed)
          ((Controller.fresh ladder cfg).onFallback (UInt32.ofNat fellBack) (some failed))
          events := by
  intro always
  obtain ⟨keeps, -⟩ := always firmwareLadder firmwareConfig 4 10000 [(41000, .tick weakTick)]
    (by unfold Ladder.GfskLast; decide) (by decide) (by
      intro timed member
      obtain rfl := List.mem_singleton.mp member
      exact ⟨2, by decide, rfl⟩)
  have below := keeps (by decide) (some 4) (by decide)
  exact absurd below (by decide)

end LoraSerial.Adr
