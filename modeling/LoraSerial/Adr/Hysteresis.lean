import LoraSerial.Adr.Controller
import LoraSerial.Library.Run
import Mathlib.Tactic.ByContra

/-!
Owns the hysteresis of a step up: the ticks a count stands for, and when the count is one of
consecutive ticks.
-/

namespace LoraSerial.Adr

open Library.Run

variable {F : Type} [Add F] [LE F] [DecidableLE F]

namespace Controller

/-- Nothing in flight, the link heard, little loss, and `mode` the chosen target. -/
def CleanFor (c : Controller F) (i : In F) (mode : Option Nat) : Prop :=
  ∃ cur, c.Chooses (c.coolingDown i.now) i cur ∧ ¬c.cfg.upMaxRetxPct < i.retxPct ∧
    c.capped (c.guarding i.now) (c.wanted i cur) = mode

/-- A tick that is not clean for the counted mode starts the count again. -/
def Restarts (c : Controller F) (i : In F) : Prop :=
  c.Evaluates i → c.CleanFor i c.want ∨ (c.decide i).2.stable = 0 ∨
    ((c.decide i).2.stable = 1 ∧ c.CleanFor i (c.decide i).2.want)

end Controller

/-- A controller with the evaluated ticks so far and the states that met them, latest
first. -/
structure Observed (F : Type) where
  c : Controller F
  seen : List (Controller F × In F)

namespace Observed

/-- The ticks up to this one. -/
def upTo (o : Observed F) (i : In F) : List (Controller F × In F) :=
  if o.c.Evaluates i then (o.c, i) :: o.seen else o.seen

def step (o : Observed F) (event : Event F) : Observed F where
  c := o.c.step event
  seen :=
    match event with
    | .tick i => o.upTo i
    | _ => o.seen

/-- A request for a faster mode comes after `up_stable` consecutive ticks clean for it. -/
def Sustained (o : Observed F) (i : In F) : Prop :=
  ∀ mode cur, (o.c.decide i).1 = .request mode → i.cur = some cur →
    o.c.ladder.faster mode (some cur) = true →
    o.c.cfg.upStable.toNat ≤ (o.upTo i).length ∧
      ∀ found ∈ (o.upTo i).take o.c.cfg.upStable.toNat, found.1.CleanFor found.2 mode

def Steady (o : Observed F) : Event F → Prop
  | .tick i => o.Sustained i ∧ o.c.Restarts i
  | _ => True

end Observed

namespace Controller

/-- No tick pauses while a count is running, and loss never leads up the ladder. -/
structure Uninterrupted (c : Controller F) (i : In F) : Prop where
  count : c.Pauses (c.coolingDown i.now) i → c.stable = 0
  loss : ∀ cur, c.Flees (c.coolingDown i.now) i cur →
    c.ladder.faster (c.ladder.moreRobust cur) (some cur) = true → c.cfg.upStable ≤ 0

end Controller

namespace Observed

def Unbroken (o : Observed F) : Event F → Prop
  | .tick i => o.c.Uninterrupted i
  | _ => True

/-- The count stands for that many last ticks, all clean for the counted mode. -/
structure Counted (o : Observed F) : Prop where
  enough : o.c.stable ≤ o.seen.length
  clean : ∀ found ∈ o.seen.take o.c.stable, found.1.CleanFor found.2 o.c.want

variable {o : Observed F} {i : In F}

/-- A tick clean for `pick` extends the count of it. -/
theorem Counted.upTo (counted : o.Counted) (evaluates : o.c.Evaluates i) {pick : Option Nat}
    (clean : o.c.CleanFor i pick) {n : Nat} (within : n ≤ o.c.counted pick) :
    n ≤ (o.upTo i).length ∧ ∀ found ∈ (o.upTo i).take n, found.1.CleanFor found.2 pick := by
  have here : o.upTo i = (o.c, i) :: o.seen := if_pos evaluates
  have before : n ≤ o.c.stable + 1 ∧
      ∀ found ∈ o.seen.take (n - 1), found.1.CleanFor found.2 pick := by
    unfold Controller.counted at within
    split at within
    next same =>
      refine ⟨within, fun found member => ?_⟩
      rw [same]
      exact counted.clean found (List.take_subset_take_left _ (by omega) member)
    next other =>
      have none : n - 1 = 0 := by omega
      refine ⟨by omega, fun found member => ?_⟩
      rw [none] at member
      cases member
  have enough := counted.enough
  rw [here]
  refine ⟨by rw [List.length_cons]; omega, fun found member => ?_⟩
  cases n with
  | zero => cases member
  | succ n =>
      rcases List.mem_cons.mp member with rfl | earlier
      · exact clean
      · exact before.2 found earlier

/-! ### One tick -/

theorem Counted.tick (counted : o.Counted) (calm : o.c.Uninterrupted i) :
    (o.step (.tick i)).Counted := by
  have branch := o.c.branch_decide i
  change Counted ⟨(o.c.decide i).2, o.upTo i⟩
  generalize (o.c.decide i).1 = action at branch
  generalize (o.c.decide i).2 = next at branch ⊢
  have reset : ∀ {next : Controller F}, next.stable = 0 → Counted ⟨next, o.upTo i⟩ := by
    intro next zero
    refine ⟨zero ▸ Nat.zero_le _, fun found member => ?_⟩
    rw [zero] at member
    cases member
  cases branch with
  | early soon =>
      have same : o.upTo i = o.seen := if_neg (not_not_intro soon)
      rw [same]
      exact counted
  | pauses pauses => exact reset (calm.count pauses)
  | counts chooses away faster loss few =>
      obtain ⟨enough, clean⟩ :=
        counted.upTo chooses.evaluates ⟨_, chooses, loss, rfl⟩ (Nat.le_refl _)
      exact ⟨enough, clean⟩
  | aborts | flees | stays | doubts | climbs | retreats => exact reset rfl

theorem Counted.step (counted : o.Counted) {event : Event F} (unbroken : o.Unbroken event) :
    (o.step event).Counted := by
  cases event with
  | tick i => exact counted.tick unbroken
  | fallback now mode => exact ⟨Nat.zero_le _, fun found member => by cases member⟩
  | enableGfsk enabled => exact ⟨counted.enough, counted.clean⟩

theorem Counted.sustained (counted : o.Counted) (calm : o.c.Uninterrupted i) : o.Sustained i := by
  intro mode cur asked current faster
  obtain ⟨other, ⟨flees, moves, rfl⟩ | ⟨chooses, away, confirms, rfl⟩⟩ :=
    Controller.request_iff.mp asked
  · obtain rfl : other = cur := Option.some.inj (flees.current.symm.trans current)
    have none := Int.toNat_of_nonpos (calm.loss other flees faster)
    rw [none]
    exact ⟨Nat.zero_le _, fun found member => by cases member⟩
  · obtain rfl : other = cur := Option.some.inj (chooses.current.symm.trans current)
    obtain ⟨loss, enough⟩ := confirms faster
    exact counted.upTo chooses.evaluates ⟨other, chooses, loss, rfl⟩ (Int.toNat_le.mpr enough)

end Observed

namespace Controller

variable {c : Controller F} {i : In F}

theorem Uninterrupted.restarts (calm : c.Uninterrupted i) : c.Restarts i := by
  intro evaluates
  have branch := c.branch_decide i
  generalize (c.decide i).1 = action at branch
  generalize (c.decide i).2 = next at branch ⊢
  cases branch with
  | early soon => exact absurd soon evaluates
  | pauses pauses => exact Or.inr (Or.inl (calm.count pauses))
  | @counts cur chooses away faster loss few =>
      have clean : c.CleanFor i (c.capped (c.guarding i.now) (c.wanted i cur)) :=
        ⟨cur, chooses, loss, rfl⟩
      by_cases same : c.capped (c.guarding i.now) (c.wanted i cur) = c.want
      · exact Or.inl (same ▸ clean)
      · exact Or.inr (Or.inr ⟨if_neg same, clean⟩)
  | aborts | flees | stays | doubts | climbs | retreats => exact Or.inr (Or.inl rfl)

/-- A pause leaves the count as it was, and is clean for nothing. -/
theorem Restarts.count (restarts : c.Restarts i) (pauses : c.Pauses (c.coolingDown i.now) i) :
    c.stable = 0 := by
  have soiled : ∀ mode, ¬c.CleanFor i mode :=
    fun mode ⟨_, chooses, _⟩ => chooses.not_pauses pauses
  have kept : (c.decide i).2.stable = c.stable := by
    unfold decide
    rw [decideBy_of_pauses pauses]
  rcases restarts pauses.evaluates with clean | zero | ⟨-, clean⟩
  · exact absurd clean (soiled _)
  · exact kept.symm.trans zero
  · exact absurd clean (soiled _)

end Controller

namespace Observed

variable {o : Observed F} {i : In F}

theorem uninterrupted_of_steady (sustained : o.Sustained i) (restarts : o.c.Restarts i) :
    o.c.Uninterrupted i := by
  refine ⟨restarts.count, fun cur flees faster => ?_⟩
  have moves : o.c.ladder.moreRobust cur ≠ some cur := by
    intro stays
    rw [stays, Ladder.faster, decide_eq_true_iff] at faster
    exact Int.lt_irrefl _ faster
  have asked : (o.c.decide i).1 = .request (o.c.ladder.moreRobust cur) :=
    Controller.request_iff.mpr ⟨cur, Or.inl ⟨flees, moves, rfl⟩⟩
  obtain ⟨-, clean⟩ := sustained _ cur asked flees.current faster
  by_contra positive
  have here : o.upTo i = (o.c, i) :: o.seen := if_pos flees.evaluates
  obtain ⟨n, count⟩ : ∃ n, o.c.cfg.upStable.toNat = n + 1 := ⟨o.c.cfg.upStable.toNat - 1, by omega⟩
  rw [here, count] at clean
  obtain ⟨other, chooses, -⟩ := clean (o.c, i) List.mem_cons_self
  have loses := flees.loses
  rw [chooses.clean] at loses
  cases loses

/-! ### Every run -/

/-- In every run from `Begin` a request for a faster mode comes after `up_stable`
consecutive clean ticks, with the count restarted by every other tick, exactly when no tick
pauses while a count is running and loss never leads up the ladder. -/
theorem steady_iff (ladder : Ladder F) (cfg : Config F) (events : List (Event F)) :
    Along step Steady ⟨.fresh ladder cfg, []⟩ events ↔
      Along step Unbroken ⟨.fresh ladder cfg, []⟩ events := by
  have start : Counted (⟨.fresh ladder cfg, []⟩ : Observed F) :=
    ⟨Nat.le_refl _, fun found member => by cases member⟩
  refine along_iff (fun o event counted => ?_) (fun o event counted => counted.step) start events
  cases event with
  | tick i =>
      constructor
      · rintro ⟨sustained, restarts⟩
        exact uninterrupted_of_steady sustained restarts
      · intro calm
        exact ⟨counted.sustained calm, calm.restarts⟩
  | fallback | enableGfsk => exact Iff.rfl

end Observed

/-- On 'medium' with a strong signal and no loss. -/
def strongTick (now : UInt32) (haveLink : Bool) : In Int where
  now := now
  busy := false
  haveLink := haveLink
  cur := some 2
  snr := 100
  rssi := -200
  retxPct := 0

/-- Two clean ticks, one without a link, and one more. -/
def brokenCount : List (Event Int) :=
  [.tick (strongTick 3000 true), .tick (strongTick 6000 true), .tick (strongTick 9000 false),
    .tick (strongTick 12000 true)]

/-- The controller climbs after a count of three that a tick without a link interrupts. -/
theorem climbs_on_broken_count :
    ¬∀ (ladder : Ladder Int) (cfg : Config Int) (events : List (Event Int)),
      Along Observed.step Observed.Steady ⟨.fresh ladder cfg, []⟩ events := by
  intro always
  obtain ⟨-, -, -, ⟨sustained, -⟩, -⟩ := always firmwareLadder firmwareConfig brokenCount
  obtain ⟨-, clean⟩ := sustained (some 0) 2 (by decide) rfl (by decide)
  obtain ⟨cur, chooses, -⟩ := clean _ (.tail _ (.head _))
  exact absurd chooses.link (by decide)

end LoraSerial.Adr
