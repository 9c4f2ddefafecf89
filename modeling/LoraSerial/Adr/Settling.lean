import LoraSerial.Adr.Controller
import LoraSerial.Library.Run
import Mathlib.Data.List.Nodup
import Mathlib.Data.List.Perm.Subperm

/-!
Owns the controller under constant conditions, with every requested switch carried out at
once: it moves up a key that ends, so it never comes back to a mode it left.
-/

namespace LoraSerial.Adr

/-- What does not change from tick to tick. -/
structure Weather (F : Type) where
  snr : F
  rssi : F
  retxPct : Int

/-- The controller, the mode both ends are on, and the modes left so far, latest first. -/
structure Steered (F : Type) where
  c : Controller F
  cur : Option Nat
  left : List (Option Nat)

/-- When a tick comes, and whether it has a reading. -/
structure Reading where
  now : UInt32
  haveLink : Bool

variable {F : Type}

def Weather.tick (weather : Weather F) (reading : Reading) (cur : Option Nat) : In F where
  now := reading.now
  busy := false
  haveLink := reading.haveLink
  cur := cur
  snr := weather.snr
  rssi := weather.rssi
  retxPct := weather.retxPct

namespace Steered

/-! ### Away from loss -/

/-- Stepping away from loss: GFSK, then the LoRa presets from fast to robust. -/
def lossKey (ladder : Ladder F) : Option Nat → Nat
  | none => 0
  | some i => if ladder.isFsk i then 0 else i + 1

variable {cur : Nat}

theorem lossKey_lt {ladder : Ladder F} (sorted : ladder.GfskLast) (rung : ∃ idx, ladder.AutoLora idx)
    (inside : cur < ladder.count) (moves : ladder.moreRobust cur ≠ some cur) :
    ∃ mode < ladder.count, ladder.moreRobust cur = some mode ∧
      lossKey ladder (some cur) < lossKey ladder (some mode) := by
  rcases ladder.moreRobust_cases inside with
    ⟨fsk, fastest⟩ | ⟨last, lora, found, ⟨below, next⟩ | ⟨-, stays⟩⟩
  · cases target : ladder.fastestAutoLora with
    | none =>
        obtain ⟨idx, here⟩ := rung
        exact absurd here (Ladder.fastestAutoLora_eq_none.mp target idx)
    | some mode =>
        obtain ⟨modeInside, lora, -⟩ := Ladder.fastestAutoLora_some target
        refine ⟨mode, modeInside, fastest.trans target, ?_⟩
        simp [lossKey, fsk, lora]
  · have nextLora := sorted.lora_of_le found (show cur + 1 ≤ last from below)
    refine ⟨cur + 1, Nat.lt_of_le_of_lt below (Ladder.lastLora_some found).1, next, ?_⟩
    simp [lossKey, lora, nextLora]
  · exact absurd stays moves

/-! ### By the signal -/

variable [Add F] [LE F] [DecidableLE F]

/-- A request is carried out before the next tick. -/
def step (weather : Weather F) (s : Steered F) (reading : Reading) : Steered F :=
  let decided := s.c.decide (weather.tick reading s.cur)
  match decided.1 with
  | .request mode => { c := decided.2, cur := mode, left := s.cur :: s.left }
  | _ => { s with c := decided.2 }

/-- Going by the signal: any preset, then the signal's own or the one below GFSK, then
GFSK. -/
def signalKey (c : Controller F) (weather : Weather F) : Option Nat → Nat
  | none => 0
  | some i =>
      if c.ladder.isFsk i then 2
      else if some i = c.ladder.pickBySnr weather.snr ∨
          c.gfskGate (weather.tick ⟨0, false⟩ (some i)) i then 1
      else 0

def key (c : Controller F) (weather : Weather F) (mode : Option Nat) : Nat :=
  if c.cfg.downRetxPct ≤ weather.retxPct then lossKey c.ladder mode
  else signalKey c weather mode

variable {c : Controller F} {weather : Weather F}

theorem signalKey_lt (rung : ∃ idx, c.ladder.AutoLora idx)
    (lora : c.ladder.isFsk cur = false) (reading : Reading)
    (moves : c.wanted (weather.tick reading (some cur)) cur ≠ some cur) :
    ∃ mode < c.ladder.count, c.wanted (weather.tick reading (some cur)) cur = some mode ∧
      signalKey c weather (some cur) < signalKey c weather (some mode) := by
  have sameGate : ∀ i, c.gfskGate (weather.tick reading (some cur)) i =
      c.gfskGate (weather.tick ⟨0, false⟩ (some i)) i := fun i => rfl
  unfold Controller.wanted at moves ⊢
  split
  next gate =>
    have gates := gate
    simp only [Controller.gfskGate, Bool.and_eq_true] at gates
    obtain ⟨top, found⟩ := Option.isSome_iff_exists.mp gates.1.1.1.2
    obtain ⟨topInside, fsk⟩ := Ladder.ludicrous_some found
    refine ⟨top, topInside, found, ?_⟩
    simp only [signalKey, lora, fsk, Bool.false_eq_true, if_false, if_true]
    split <;> decide
  next gate =>
    rw [if_neg gate] at moves
    rcases c.ladder.pickBySnr_cases weather.snr with
      ⟨-, nowhere⟩ | ⟨mode, pick, modeInside, modeLora, -⟩
    · obtain ⟨idx, here⟩ := rung
      exact absurd here (Ladder.fastestAutoLora_eq_none.mp nowhere idx)
    · refine ⟨mode, modeInside, pick, ?_⟩
      have shut : ¬c.gfskGate (weather.tick ⟨0, false⟩ (some cur)) cur = true := by
        rw [← sameGate]
        exact gate
      have away : ¬some cur = c.ladder.pickBySnr weather.snr := fun same => moves same.symm
      simp [signalKey, lora, modeLora, pick, shut, pick ▸ away]

/-! ### One tick -/

/-- No cool-down and no penalty at a tick. -/
def Quiet (c : Controller F) (reading : Reading) : Prop :=
  c.coolingDown reading.now = false ∧ c.guarding reading.now = false

/-- A request moves up the key, inside the table. -/
theorem key_lt (sorted : c.ladder.GfskLast) (rung : ∃ idx, c.ladder.AutoLora idx)
    {held : Option Nat} (inside : ∀ cur, held = some cur → cur < c.ladder.count)
    {reading : Reading} (quiet : Quiet c reading) {mode : Option Nat}
    (asked : (c.decide (weather.tick reading held)).1 = .request mode) :
    (∃ cur < c.ladder.count, held = some cur) ∧ (∃ next < c.ladder.count, mode = some next) ∧
      key c weather held < key c weather mode := by
  obtain ⟨cur, ⟨flees, moves, rfl⟩ | ⟨chooses, away, -, rfl⟩⟩ := Controller.request_iff.mp asked
  · have current : held = some cur := flees.current
    have curInside := inside cur current
    obtain ⟨next, nextInside, robust, higher⟩ := lossKey_lt sorted rung curInside moves
    have lossy : c.cfg.downRetxPct ≤ weather.retxPct := of_decide_eq_true flees.loses
    refine ⟨⟨cur, curInside, current⟩, ⟨next, nextInside, robust⟩, ?_⟩
    rw [key, key, if_pos lossy, if_pos lossy, current, robust]
    exact higher
  · have current : held = some cur := chooses.current
    have curInside := inside cur current
    have clean : ¬c.cfg.downRetxPct ≤ weather.retxPct := of_decide_eq_false chooses.clean
    have lora : c.ladder.isFsk cur = false := by
      simpa [Ladder.fskAt, curInside] using chooses.lora
    have guard : c.guarding (weather.tick reading held).now = false := quiet.2
    rw [guard, Controller.capped_false, current] at away ⊢
    obtain ⟨next, nextInside, wanted, higher⟩ := signalKey_lt rung lora reading away
    refine ⟨⟨cur, curInside, rfl⟩, ⟨next, nextInside, wanted⟩, ?_⟩
    rw [key, key, if_neg clean, if_neg clean, wanted]
    exact higher

/-- What no tick without a switch in flight changes. -/
structure Same (c other : Controller F) : Prop where
  ladder : other.ladder = c.ladder
  cfg : other.cfg = c.cfg
  cooldownUntil : other.cooldownUntil = c.cooldownUntil
  penalized : other.penalized = c.penalized
  penalizedUntil : other.penalizedUntil = c.penalizedUntil

theorem Same.key {other : Controller F} (same : Same c other) :
    key other weather = key c weather := by
  funext mode
  cases mode <;>
    simp [Steered.key, signalKey, lossKey, Controller.gfskGate, same.ladder, same.cfg]

omit [Add F] [LE F] [DecidableLE F] in
theorem Same.quiet {other : Controller F} (same : Same c other) {reading : Reading}
    (quiet : Quiet c reading) : Quiet other reading := by
  unfold Quiet Controller.coolingDown Controller.guarding at *
  rw [same.cooldownUntil, same.penalized, same.penalizedUntil]
  exact quiet

theorem same_decide (weather : Weather F) (reading : Reading) (cur : Option Nat) :
    Same c (c.decide (weather.tick reading cur)).2 := by
  obtain ⟨ladder, cfg, penalized, penalizedUntil⟩ := c.decideBy_frame
    (c.coolingDown reading.now) (c.guarding reading.now) (weather.tick reading cur)
  exact ⟨ladder, cfg, c.cooldownUntil_decideBy _ _ rfl, penalized, penalizedUntil⟩

/-! ### Every run -/

/-- The modes so far, each above the one before. -/
structure Ascends (c : Controller F) (weather : Weather F) (s : Steered F) : Prop where
  same : Same c s.c
  inside : ∀ mode, s.cur = some mode → mode < c.ladder.count
  known : ∀ mode ∈ s.left, ∃ idx < c.ladder.count, mode = some idx
  ascending : (s.cur :: s.left).Pairwise fun later earlier =>
    key c weather earlier < key c weather later

theorem Ascends.step {s : Steered F} (ascends : Ascends c weather s)
    (sorted : c.ladder.GfskLast) (rung : ∃ idx, c.ladder.AutoLora idx) {reading : Reading}
    (quiet : Quiet c reading) : Ascends c weather (s.step weather reading) := by
  have kept := same_decide (c := s.c) weather reading s.cur
  have same : Same c (s.c.decide (weather.tick reading s.cur)).2 :=
    ⟨kept.ladder.trans ascends.same.ladder, kept.cfg.trans ascends.same.cfg,
      kept.cooldownUntil.trans ascends.same.cooldownUntil,
      kept.penalized.trans ascends.same.penalized,
      kept.penalizedUntil.trans ascends.same.penalizedUntil⟩
  unfold Steered.step
  dsimp only
  split
  next mode asked =>
    have ladder := ascends.same.ladder
    obtain ⟨⟨cur, curInside, current⟩, ⟨next, nextInside, named⟩, higher⟩ :=
      key_lt (ladder ▸ sorted) (ladder ▸ rung)
        (fun cur current => ladder ▸ ascends.inside cur current) (ascends.same.quiet quiet) asked
    rw [ascends.same.key] at higher
    rw [ladder] at curInside nextInside
    refine ⟨same, fun idx same => ?_, fun mode member => ?_, ?_⟩
    · obtain rfl := Option.some.inj (named.symm.trans same)
      exact nextInside
    · rcases List.mem_cons.mp member with rfl | earlier
      · exact ⟨cur, curInside, current⟩
      · exact ascends.known mode earlier
    · refine List.pairwise_cons.mpr ⟨fun earlier member => ?_, ascends.ascending⟩
      rcases List.mem_cons.mp member with rfl | older
      · exact higher
      · exact Nat.lt_trans ((List.pairwise_cons.mp ascends.ascending).1 earlier older) higher
  next => exact ⟨same, ascends.inside, ascends.known, ascends.ascending⟩

/-- Under constant conditions, with no cool-down and no penalty, the controller issues at most
as many requests as there are modes and never asks for a mode it has left. -/
theorem settles (c : Controller F) (sorted : c.ladder.GfskLast)
    (rung : ∃ idx, c.ladder.AutoLora idx) (weather : Weather F) (cur : Option Nat)
    (valid : ∀ mode, cur = some mode → mode < c.ladder.count) (readings : List Reading)
    (quiet : ∀ reading ∈ readings, Quiet c reading) :
    let s := readings.foldl (step weather) { c := c, cur := cur, left := [] }
    (s.cur :: s.left).Nodup ∧ s.left.length ≤ c.ladder.count := by
  intro s
  have ascends : Ascends c weather s := by
    have start : Ascends c weather { c := c, cur := cur, left := [] } :=
      ⟨⟨rfl, rfl, rfl, rfl, rfl⟩, valid, fun mode member => absurd member List.not_mem_nil,
        List.pairwise_singleton _ _⟩
    clear valid
    revert s
    generalize ({ c := c, cur := cur, left := [] } : Steered F) = first at start
    induction readings generalizing first with
    | nil => exact start
    | cons reading rest inductionHypothesis =>
        exact inductionHypothesis (fun later member => quiet later (List.mem_cons_of_mem _ member))
          _ (start.step sorted rung (quiet reading List.mem_cons_self))
  have distinct : (s.cur :: s.left).Nodup := by
    refine ascends.ascending.imp fun higher same => ?_
    rw [same] at higher
    exact Nat.lt_irrefl _ higher
  refine ⟨distinct, ?_⟩
  have inTable : s.left ⊆ (List.range c.ladder.count).map some := by
    intro mode member
    obtain ⟨idx, below, rfl⟩ := ascends.known mode member
    exact List.mem_map_of_mem (List.mem_range.mpr below)
  have most := (List.subperm_of_subset (List.nodup_cons.mp distinct).2 inTable).length_le
  rwa [List.length_map, List.length_range] at most

/-- The firmware's controller on 'far', with a strong signal. -/
theorem settles_firmware :
    let s := [⟨3000, true⟩, ⟨6000, true⟩, ⟨9000, true⟩].foldl
      (step { snr := 100, rssi := -100, retxPct := 0 })
      { c := .fresh firmwareLadder firmwareConfig, cur := some 4, left := [] }
    (s.cur :: s.left).Nodup ∧ s.left.length ≤ firmwareLadder.count :=
  settles (.fresh firmwareLadder firmwareConfig) (by unfold Ladder.GfskLast; decide)
    ⟨0, by decide⟩ _ (some 4) (by
      intro mode named
      obtain rfl := Option.some.inj named
      decide) _ (by
      intro reading member
      simp only [List.mem_cons, List.not_mem_nil, or_false] at member
      rcases member with rfl | rfl | rfl <;> exact ⟨by decide, by decide⟩)

end Steered

end LoraSerial.Adr
