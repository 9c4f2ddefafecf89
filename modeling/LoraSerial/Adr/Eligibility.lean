import LoraSerial.Adr.Controller
import LoraSerial.Library.Run
import Mathlib.Tactic.ByContra

/-!
Owns which modes the adaptive data rate may ask for, and when it keeps to them.
-/

namespace LoraSerial.Adr

open Library.Run

namespace Controller

variable {F : Type} [Add F] [LE F] [DecidableLE F]

/-- A mode of the table that 'auto' may use on this tick. -/
def Requestable (c : Controller F) (i : In F) (cur : Nat) (mode : Option Nat) : Prop :=
  ∃ idx, mode = some idx ∧ idx < c.ladder.count ∧
    if c.ladder.isFsk idx then c.gfskGate i cur = true else c.ladder.autoOkAt idx = true

/-- What a tick asks for may be used. -/
def KeepsEligible (c : Controller F) : Event F → Prop
  | .tick i => ∀ mode, (c.decide i).1 = .request mode →
      ∃ cur, i.cur = some cur ∧ c.Requestable i cur mode
  | _ => True

/-- Stepping down by one index lands on a mode that may be used, and the signal has one to
ask for. -/
structure StepsOnEligible (c : Controller F) (i : In F) (cur : Nat) : Prop where
  loss : c.Flees (c.coolingDown i.now) i cur →
    c.ladder.moreRobust cur = some cur ∨ c.Requestable i cur (c.ladder.moreRobust cur)
  cap : c.Chooses (c.coolingDown i.now) i cur → ∀ failed, c.Caps i cur failed →
    c.Confirms i cur (c.ladder.moreRobust failed) →
    c.ladder.moreRobust failed = some cur ∨ c.Requestable i cur (c.ladder.moreRobust failed)
  rung : c.Chooses (c.coolingDown i.now) i cur → (∀ failed, ¬c.Caps i cur failed) →
    c.Confirms i cur (c.wanted i cur) → ∃ idx, c.ladder.AutoLora idx

def OnEligible (c : Controller F) : Event F → Prop
  | .tick i => ∀ cur, c.StepsOnEligible i cur
  | _ => True

variable {c : Controller F} {i : In F} {cur : Nat}

/-! ### One tick -/

/-- What the signal asks for may be used, unless there is nothing to ask for. -/
theorem requestable_wanted (found : ∃ idx, c.ladder.AutoLora idx) :
    c.Requestable i cur (c.wanted i cur) := by
  unfold wanted
  split
  next gate =>
    have gates := gate
    simp only [gfskGate, Bool.and_eq_true] at gates
    obtain ⟨idx, top⟩ := Option.isSome_iff_exists.mp gates.1.1.1.2
    obtain ⟨inside, fsk⟩ := Ladder.ludicrous_some top
    exact ⟨idx, top, inside, by rw [if_pos fsk]; exact gate⟩
  next =>
    rcases c.ladder.pickBySnr_cases i.snr with ⟨-, nowhere⟩ | ⟨idx, pick, inside, lora, auto⟩
    · obtain ⟨idx, here⟩ := found
      exact absurd here (Ladder.fastestAutoLora_eq_none.mp nowhere idx)
    · exact ⟨idx, pick, inside, by rw [lora]; exact auto⟩

/-- Without a LoRa preset for 'auto' the signal asks for -1. -/
theorem wanted_eq_none (nowhere : ¬∃ idx, c.ladder.AutoLora idx) : c.wanted i cur = none := by
  have fastest : c.ladder.fastestAutoLora = none :=
    Ladder.fastestAutoLora_eq_none.mpr (not_exists.mp nowhere)
  have gate : c.gfskGate i cur = false := by simp [gfskGate, fastest]
  rw [wanted, gate]
  rcases c.ladder.pickBySnr_cases i.snr with ⟨none, -⟩ | ⟨idx, -, here⟩
  · exact none
  · exact absurd ⟨idx, here⟩ nowhere

/-- A tick keeps to eligible modes exactly when its steps do. -/
theorem keepsEligible_iff (c : Controller F) (i : In F) :
    c.KeepsEligible (.tick i) ↔ c.OnEligible (.tick i) := by
  constructor
  · intro keeps cur
    have asks : ∀ mode, (c.decide i).1 = .request mode → i.cur = some cur →
        c.Requestable i cur mode := by
      intro mode asked current
      obtain ⟨other, same, fine⟩ := keeps mode asked
      obtain rfl : cur = other := Option.some.inj (current.symm.trans same)
      exact fine
    refine ⟨fun flees => ?_, fun chooses failed caps confirms => ?_,
      fun chooses free confirms => ?_⟩
    · by_cases stays : c.ladder.moreRobust cur = some cur
      · exact Or.inl stays
      · exact Or.inr (asks _ (request_iff.mpr ⟨cur, Or.inl ⟨flees, stays, rfl⟩⟩) flees.current)
    · by_cases stays : c.ladder.moreRobust failed = some cur
      · exact Or.inl stays
      · have target := capped_of_caps caps
        refine Or.inr (asks _ (request_iff.mpr ⟨cur, Or.inr ⟨chooses, ?_, ?_, ?_⟩⟩)
          chooses.current)
        · rw [target]
          exact stays
        · rw [target]
          exact confirms
        · exact target.symm
    · by_contra nowhere
      have none : c.wanted i cur = none := wanted_eq_none nowhere
      have target := (capped_of_not_caps free).trans none
      have asked : (c.decide i).1 = .request Option.none := by
        refine request_iff.mpr ⟨cur, Or.inr ⟨chooses, ?_, ?_, target.symm⟩⟩
        · rw [target]
          exact nofun
        · rw [target, ← none]
          exact confirms
      obtain ⟨idx, named, -⟩ := asks _ asked chooses.current
      cases named
  · intro fine mode asked
    obtain ⟨cur, ⟨flees, moves, rfl⟩ | ⟨chooses, away, confirms, rfl⟩⟩ := request_iff.mp asked
    · exact ⟨cur, flees.current, ((fine cur).loss flees).resolve_left moves⟩
    · refine ⟨cur, chooses.current, ?_⟩
      by_cases caps : ∃ failed, c.Caps i cur failed
      · obtain ⟨failed, caps⟩ := caps
        rw [capped_of_caps caps] at away confirms ⊢
        exact ((fine cur).cap chooses failed caps confirms).resolve_left away
      · have free := not_exists.mp caps
        rw [capped_of_not_caps free] at confirms ⊢
        exact requestable_wanted ((fine cur).rung chooses free confirms)

/-! ### Every run -/

/-- Along every run the controller asks for eligible modes exactly when its steps down land
on them. -/
theorem eligible_iff (c : Controller F) (events : List (Event F)) :
    Along step KeepsEligible c events ↔ Along step OnEligible c events := by
  have each : ∀ (c : Controller F) event, c.KeepsEligible event ↔ c.OnEligible event := by
    intro c event
    cases event with
    | tick i => exact c.keepsEligible_iff i
    | fallback | enableGfsk => exact Iff.rfl
  exact ⟨Along.mono fun c event => (each c event).mp, Along.mono fun c event => (each c event).mpr⟩

end Controller

/-- The second preset is manual-only. -/
def gappedLadder : Ladder Int :=
  { firmwareLadder with autoOk := some fun i => i != 1 }

/-- A tick on the first preset, with 30 % of the frames lost. -/
def lossyTick : In Int where
  now := 4000
  busy := false
  haveLink := true
  cur := some 0
  snr := 10
  rssi := -60
  retxPct := 30

/-- The controller asks for the manual-only preset. -/
theorem asks_for_manual :
    ¬∀ (ladder : Ladder Int) (cfg : Config Int) (events : List (Event Int)),
      (∀ i, Event.tick i ∈ events → ∃ cur < ladder.count, i.cur = some cur) →
        Along Controller.step Controller.KeepsEligible (.fresh ladder cfg) events := by
  intro always
  obtain ⟨keeps, -⟩ := always gappedLadder firmwareConfig [.tick lossyTick] (by
    intro i member
    obtain rfl : i = lossyTick := Event.tick.inj (List.mem_singleton.mp member)
    exact ⟨0, by decide, rfl⟩)
  obtain ⟨cur, -, idx, named, -, auto⟩ := keeps (some 1) (by decide)
  obtain rfl := Option.some.inj named
  have allowed : gappedLadder.autoOkAt 1 = true := auto
  exact absurd allowed (by decide)

end LoraSerial.Adr
