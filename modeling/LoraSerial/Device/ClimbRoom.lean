import LoraSerial.Adr.Ladder
import LoraSerial.Device.PowerSettling

/-!
Owns the room to climb that the power loops leave the adaptive data rate: where both loops
rest on a fixed path, what SNR the initiator then measures, and when that is enough for the
next faster rung. The initiator measures and decides; the power that it measures is the
responder's, and aims where the responder's own features say.
-/

namespace LoraSerial.Device

open Adr

/-- `BuildAdrLadder` on the mode table. -/
def adrLadder : Ladder ℚ where
  count := rfModeCount
  snrFloor i := modeSnrFloor.getD i 0
  isFsk i := (rfModes[i]?.map RfMode.fsk).getD false
  autoOk := some fun _ => true
  marginDb := 6

/-- A pass on a fresh report of the power leaves it as it is. -/
def SettledAt (config : PowerConfig) (gain : ℚ) (power : Int) : Prop :=
  adjustTxPower config (snrToAux (power + gain)) false power = power

instance (config : PowerConfig) (gain : ℚ) (power : Int) :
    Decidable (SettledAt config gain power) :=
  inferInstanceAs (Decidable (_ = _))

/-- Both ends are on the rung with auto-power on, and the initiator is in 'auto'. -/
structure Climbing (initiator responder : PowerConfig) (rung : Nat) : Prop where
  initiatorOn : initiator.radio.currentModeIndex = some rung
  responderOn : responder.radio.currentModeIndex = some rung
  initiatorApwr : initiator.feat &&& featApwr ≠ 0
  responderApwr : responder.feat &&& featApwr ≠ 0
  auto : initiator.feat &&& featAdr ≠ 0

/-- The initiator measures enough SNR for the next faster rung, or the responder has no more
power to give. -/
def HasRoom (rung : Nat) (toInitiator : ℚ) (responderPower : Int) : Prop :=
  adrLadder.snrFloor (rung - 1) + adrLadder.marginDb ≤ responderPower + toInitiator ∨
    kTxPowerDbm ≤ responderPower

instance (rung : Nat) (toInitiator : ℚ) (responderPower : Int) :
    Decidable (HasRoom rung toInitiator responderPower) :=
  inferInstanceAs (Decidable (_ ∨ _))

/-! ### The rungs -/

theorem Radio.phyFsk_of_rung {radio : Radio} {rung : Nat} (lora : rung < loraModeCount)
    (on : radio.currentModeIndex = some rung) : radio.phyFsk = false := by
  obtain ⟨inside, runs, -⟩ := List.findIdx?_eq_some_iff_getElem.mp on
  have plain : ∀ i, (inside : i < rfModes.length) → i < loraModeCount →
      rfModes[i].fsk = false := by
    decide
  rw [Radio.runs, plain rung inside lora] at runs
  simp only [Bool.false_eq_true, if_false, Bool.and_eq_true, Bool.not_eq_true'] at runs
  exact runs.1.1.1

/-- The four rungs below the fastest. -/
theorem rung_cases {rung : Nat} (slower : 0 < rung) (lora : rung < loraModeCount) :
    rung = 1 ∨ rung = 2 ∨ rung = 3 ∨ rung = 4 := by
  simp only [loraModeCount] at lora
  omega

/-- Where the loop aims: at its own rung, or in 'auto' a rung ahead. -/
theorem floor_on_rung {config : PowerConfig} {rung : Nat} (slower : 0 < rung)
    (lora : rung < loraModeCount) (on : config.radio.currentModeIndex = some rung) :
    config.floor =
      if config.feat &&& featAdr = 0 then lround (modeSnrFloor.getD rung 0)
      else ⌈modeSnrFloor.getD (rung - 1) 0⌉ := by
  simp only [PowerConfig.floor, Radio.snrFloor, Radio.nextFasterSnrFloor, on]
  by_cases adr : config.feat &&& featAdr = 0 <;>
    rcases rung_cases slower lora with rfl | rfl | rfl | rfl <;>
    simp [autoPowerTargetFloor, modeSnrFloor, adr]

/-- The whole decibels that the loops aim at. -/
theorem own_targets :
    lround (modeSnrFloor.getD 1 0) = -8 ∧ lround (modeSnrFloor.getD 2 0) = -8 ∧
      lround (modeSnrFloor.getD 3 0) = -13 ∧ lround (modeSnrFloor.getD 4 0) = -20 := by
  norm_num [modeSnrFloor, lround]

theorem next_targets :
    ⌈modeSnrFloor.getD 0 0⌉ = -5 ∧ ⌈modeSnrFloor.getD 1 0⌉ = -7 ∧ ⌈modeSnrFloor.getD 2 0⌉ = -7 ∧
      ⌈modeSnrFloor.getD 3 0⌉ = -12 := by
  norm_num [modeSnrFloor]

/-- The targets of `PickBySnr`, by SNR. -/
theorem pickBySnr_eq (snr : ℚ) :
    adrLadder.pickBySnr snr =
      some (if 1 ≤ snr then 0 else if -3 / 2 ≤ snr then 1 else if -13 / 2 ≤ snr then 3 else 4) := by
  have turbo : (-5 : ℚ) + 6 = 1 := by norm_num
  have fast : (-15 / 2 : ℚ) + 6 = -3 / 2 := by norm_num
  have slow : (-25 / 2 : ℚ) + 6 = -13 / 2 := by norm_num
  have modes : List.range adrLadder.count = [0, 1, 2, 3, 4, 5] := by decide
  have fastest : adrLadder.fastestAutoLora = some 0 := rfl
  rw [Ladder.pickBySnr, modes, fastest]
  simp only [Ladder.pickLoop, Ladder.autoOkAt, adrLadder, rfModeCount, rfModes, modeSnrFloor]
  simp [turbo, fast, slow]
  split_ifs <;> rfl

/-- What each step up needs. -/
theorem climb_needs :
    adrLadder.snrFloor 0 + adrLadder.marginDb = 1 ∧
      adrLadder.snrFloor 1 + adrLadder.marginDb = -3 / 2 ∧
      adrLadder.snrFloor 2 + adrLadder.marginDb = -3 / 2 ∧
      adrLadder.snrFloor 3 + adrLadder.marginDb = -13 / 2 := by
  norm_num [adrLadder, modeSnrFloor]

/-- On the rungs slower than fast, rounding the next floor up makes good for the rounding of the
report. -/
theorem climb_le_target {rung : Nat} (slower : 0 < rung) (lora : rung < loraModeCount)
    (notFast : rung ≠ 1) :
    -127 ≤ ⌈modeSnrFloor.getD (rung - 1) 0⌉ + autoPwrMarginLo ∧
      adrLadder.snrFloor (rung - 1) + adrLadder.marginDb ≤
        ((⌈modeSnrFloor.getD (rung - 1) 0⌉ + autoPwrMarginLo : Int) : ℚ) - 1 / 2 := by
  obtain ⟨-, nextMedium, nextSlow, nextFar⟩ := next_targets
  obtain ⟨-, fast, medium, slow⟩ := climb_needs
  rcases rung_cases slower lora with rfl | rfl | rfl | rfl
  · exact absurd rfl notFast
  · rw [fast, nextMedium, autoPwrMarginLo]
    norm_num
  · rw [medium, nextSlow, autoPwrMarginLo]
    norm_num
  · rw [slow, nextFar, autoPwrMarginLo]
    norm_num

/-- Clearing the next floor and the margin is the SNR test of a step up. -/
theorem pickBySnr_faster_iff {rung : Nat} (slower : 0 < rung) (lora : rung < loraModeCount)
    (snr : ℚ) :
    (∃ faster < rung, adrLadder.pickBySnr snr = some faster) ↔
      adrLadder.snrFloor (rung - 1) + adrLadder.marginDb ≤ snr := by
  obtain ⟨turbo, fast, medium, slow⟩ := climb_needs
  rw [pickBySnr_eq]
  simp only [Option.some.injEq, exists_eq_right']
  rcases rung_cases slower lora with rfl | rfl | rfl | rfl
  · rw [turbo]
    grind
  · rw [fast]
    grind
  · rw [medium]
    grind
  · rw [slow]
    grind

/-! ### Settled loops -/

variable {config : PowerConfig} {gain : ℚ} {power : Int}

/-- The loop rests where no change is both asked for and allowed. -/
theorem settledAt_iff (apwr : config.feat &&& featApwr ≠ 0) (lora : config.radio.phyFsk = false) :
    SettledAt config gain power ↔
      ∀ up, Asks up (reportedMargin config gain power) → ¬Allows up power := by
  rw [SettledAt]
  rcases adjustTxPower_cases apwr lora (snrToAux (power + gain)) power with
    ⟨up, asks, allows, moves⟩ | ⟨rests, stays⟩
  · rw [moves]
    exact iff_of_false (changed_ne up power) fun rests => rests up asks allows
  · exact iff_of_true stays rests

/-- A report of at least `k` was measured at most half a decibel below it. -/
theorem sub_half_le_of_le_snrToAux {snr : ℚ} {k : Int} (inByte : -127 ≤ k)
    (reported : k ≤ snrToAux snr) : (k : ℚ) - 1 / 2 ≤ snr := by
  have rounded := lround_le (max (-128) (min 127 snr))
  have cast : (k : ℚ) ≤ snrToAux snr := by exact_mod_cast reported
  have bound : (-127 : ℚ) ≤ k := by exact_mod_cast inByte
  rw [snrToAux] at cast
  have above : (k : ℚ) - 1 / 2 ≤ max (-128) (min 127 snr) := by linarith
  rcases le_max_iff.mp above with tooLow | inside
  · linarith
  · exact le_trans inside (min_le_right _ _)

/-- A loop that rests below its maximum is heard six decibels above its target, up to the
rounding of the report. -/
theorem SettledAt.snr_ge (settled : SettledAt config gain power)
    (apwr : config.feat &&& featApwr ≠ 0) (lora : config.radio.phyFsk = false)
    (below : power < kTxPowerDbm) (inByte : -127 ≤ config.floor + autoPwrMarginLo) :
    ((config.floor + autoPwrMarginLo : Int) : ℚ) - 1 / 2 ≤ power + gain := by
  refine sub_half_le_of_le_snrToAux inByte ?_
  have rests := (settledAt_iff apwr lora).mp settled true
  simp only [Asks, Allows, reportedMargin, if_true] at rests
  omega

theorem settledAt_of_band (apwr : config.feat &&& featApwr ≠ 0)
    (lora : config.radio.phyFsk = false)
    (low : autoPwrMarginLo ≤ reportedMargin config gain power)
    (high : reportedMargin config gain power ≤ autoPwrMarginHi) : SettledAt config gain power := by
  refine (settledAt_iff apwr lora).mpr fun up asks => ?_
  cases up <;> simp [Asks] at asks <;> omega

/-- At its maximum the loop rests on a path that asks for more. -/
theorem settledAt_maximum (apwr : config.feat &&& featApwr ≠ 0)
    (lora : config.radio.phyFsk = false)
    (weak : reportedMargin config gain kTxPowerDbm < autoPwrMarginLo) :
    SettledAt config gain kTxPowerDbm := by
  refine (settledAt_iff apwr lora).mpr fun up asks => ?_
  cases up
  · simp [Asks, autoPwrMarginLo, autoPwrMarginHi] at asks weak
    omega
  · simp [Allows]

/-- A due pass on a fresh report, on a link that is not silent. -/
theorem PowerLoop.maybeStatus_power_eq_iff {loop : PowerLoop} {now : UInt32}
    (due : loop.due now = true) (audible : silentAt now loop.lastRx = false)
    (fresh : loop.auxRx = snrToAux (loop.power + gain)) :
    (loop.maybeStatus config now).power = loop.power ↔ SettledAt config gain loop.power := by
  simp [maybeStatus, due, audible, fresh, SettledAt]

/-! ### The room -/

/-- A path on which a responder settled at 10 dBm keeps the rung. -/
def stuckGain (rung : Nat) : ℚ :=
  match rung with
  | 1 => -19 / 2
  | 2 | 3 => -12
  | _ => -18

/-- In 'auto' or not, the responder rests there. -/
theorem settledAt_stuckGain {rung : Nat} (slower : 0 < rung) (lora : rung < loraModeCount)
    (on : config.radio.currentModeIndex = some rung) (apwr : config.feat &&& featApwr ≠ 0)
    (aims : config.feat &&& featAdr = 0 ∨ rung = 1) : SettledAt config (stuckGain rung) 10 := by
  have aim := floor_on_rung slower lora on
  have heard : snrToAux (((10 : Int) : ℚ) + stuckGain 1) = 1 ∧
      snrToAux (((10 : Int) : ℚ) + stuckGain 2) = -2 ∧
      snrToAux (((10 : Int) : ℚ) + stuckGain 3) = -2 ∧
      snrToAux (((10 : Int) : ℚ) + stuckGain 4) = -8 := by
    norm_num [snrToAux, lround, stuckGain]
  obtain ⟨heardFast, heardMedium, heardSlow, heardFar⟩ := heard
  obtain ⟨ownFast, ownMedium, ownSlow, ownFar⟩ := own_targets
  have band : autoPwrMarginLo ≤ reportedMargin config (stuckGain rung) 10 ∧
      reportedMargin config (stuckGain rung) 10 ≤ autoPwrMarginHi := by
    rw [reportedMargin, aim, autoPwrMarginLo, autoPwrMarginHi]
    rcases rung_cases slower lora with rfl | rfl | rfl | rfl
    · rw [heardFast, ownFast, next_targets.1]
      split <;> omega
    · rw [heardMedium, ownMedium, if_pos (aims.resolve_right (by decide))]
      omega
    · rw [heardSlow, ownSlow, if_pos (aims.resolve_right (by decide))]
      omega
    · rw [heardFar, ownFar, if_pos (aims.resolve_right (by decide))]
      omega
  exact settledAt_of_band apwr (Radio.phyFsk_of_rung lora on) band.1 band.2

/-- On a path this weak every loop rests at its maximum. -/
theorem settledAt_weak {rung : Nat} (slower : 0 < rung) (lora : rung < loraModeCount)
    (on : config.radio.currentModeIndex = some rung) (apwr : config.feat &&& featApwr ≠ 0) :
    SettledAt config (-100) kTxPowerDbm := by
  refine settledAt_maximum apwr (Radio.phyFsk_of_rung lora on) ?_
  have heard : snrToAux ((kTxPowerDbm : ℚ) + -100) = -78 := by
    norm_num [snrToAux, lround, show kTxPowerDbm = 22 from rfl]
  have aim := floor_on_rung slower lora on
  obtain ⟨ownFast, ownMedium, ownSlow, ownFar⟩ := own_targets
  obtain ⟨nextFast, nextMedium, nextSlow, nextFar⟩ := next_targets
  rw [reportedMargin, heard, aim, autoPwrMarginLo]
  rcases rung_cases slower lora with rfl | rfl | rfl | rfl
  · rw [ownFast, nextFast]
    split <;> omega
  · rw [ownMedium, nextMedium]
    split <;> omega
  · rw [ownSlow, nextSlow]
    split <;> omega
  · rw [ownFar, nextFar]
    split <;> omega

theorem not_hasRoom_stuckGain {rung : Nat} (slower : 0 < rung) (lora : rung < loraModeCount) :
    ¬HasRoom rung (stuckGain rung) 10 := by
  rcases rung_cases slower lora with rfl | rfl | rfl | rfl <;>
    norm_num [HasRoom, adrLadder, modeSnrFloor, stuckGain, show kTxPowerDbm = 22 from rfl]

/-- The loops leave room to climb on every path exactly when the responder too is in 'auto',
and the rung is not the fast one, whose next floor is a whole number. -/
theorem climb_room_iff {initiator responder : PowerConfig} {rung : Nat} (slower : 0 < rung)
    (lora : rung < loraModeCount) (climbing : Climbing initiator responder rung) :
    (∀ (toResponder toInitiator : ℚ) (initiatorPower responderPower : Int),
      SettledAt initiator toResponder initiatorPower →
      SettledAt responder toInitiator responderPower →
      HasRoom rung toInitiator responderPower) ↔
    responder.feat &&& featAdr ≠ 0 ∧ some rung ≠ modeIndexByName "fast" := by
  have fastIndex : modeIndexByName "fast" = some 1 := by decide +kernel
  rw [fastIndex, ne_eq (some rung), Option.some.injEq]
  constructor
  · intro leaves
    by_contra stays
    have aims : responder.feat &&& featAdr = 0 ∨ rung = 1 := by
      by_contra neither
      exact stays (not_or.mp neither)
    exact not_hasRoom_stuckGain slower lora (leaves (-100) (stuckGain rung) kTxPowerDbm 10
      (settledAt_weak slower lora climbing.initiatorOn climbing.initiatorApwr)
      (settledAt_stuckGain slower lora climbing.responderOn climbing.responderApwr aims))
  · rintro ⟨adr, notFast⟩ toResponder toInitiator initiatorPower responderPower - settled
    refine (lt_or_ge responderPower kTxPowerDbm).imp_left fun below => ?_
    have aim := floor_on_rung slower lora climbing.responderOn
    rw [if_neg adr] at aim
    have heard := settled.snr_ge climbing.responderApwr
      (Radio.phyFsk_of_rung lora climbing.responderOn) below
    obtain ⟨inByte, enough⟩ := climb_le_target slower lora notFast
    rw [aim] at heard
    exact enough.trans (heard inByte)

/-- The default features with auto-power, on a preset. -/
def autoPowered (idx : Nat) (adr : Bool) : PowerConfig where
  feat := Host.featComp ||| Host.featEnc ||| featApwr ||| (if adr then featAdr else 0)
  radio := Radio.ofMode (rfModes.getD idx ⟨"", 0, 0, 0, false⟩)

/-- Both ends in 'auto' on the far rung, and 6 dB below zero at the initiator. -/
theorem climb_room_iff_far : HasRoom 4 (-21) 15 := by
  have climbing : Climbing (autoPowered 4 true) (autoPowered 4 true) 4 :=
    ⟨by decide, by decide, by decide, by decide, by decide⟩
  have settled : SettledAt (autoPowered 4 true) (-21) 15 := by decide +kernel
  exact (climb_room_iff (by decide) (by decide) climbing).mpr (by decide +kernel)
    (-21) (-21) 15 15 settled settled

/-- 'auto' on the initiator alone: from 22 dBm the responder eases off to 10 dBm and rests
there, 8 dB below zero at the initiator, and the far rung stays. -/
theorem stuck_on_far :
    Climbing (autoPowered 4 true) (autoPowered 4 false) 4 ∧
      (fun power => adjustTxPower (autoPowered 4 false) (snrToAux (power + -18)) false power)^[6]
        22 = 10 ∧
      SettledAt (autoPowered 4 true) (-28) 22 ∧ SettledAt (autoPowered 4 false) (-18) 10 ∧
      ¬HasRoom 4 (-18) 10 := by
  refine ⟨⟨?_, ?_, ?_, ?_, ?_⟩, ?_, ?_, ?_, ?_⟩ <;> decide +kernel

end LoraSerial.Device
