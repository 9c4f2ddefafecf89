import LoraSerial.Device.AutoPower
import LoraSerial.Library.Run
import Mathlib.Tactic.NormNum

/-!
Owns the power loop before the peer's first report: where the telemetry byte we hold comes
from, over boots, link resets and restarts of the peer, and when the loop lowers the power
on a byte that is no report. The byte 0 means both an SNR of 0 dB and no report.
-/

namespace LoraSerial.Device

open Library.Run

/-! ### A report and its byte -/

/-- What a telemetry byte stands for: nothing yet, the peer's "no signal", or the SNR of the
last packet its radio took, from us or from somebody else. -/
inductive Report where
  | initial
  | noSignal
  | fromUs (snr : ℚ)
  | fromOther (snr : ℚ)
deriving DecidableEq, Repr

/-- The byte as `AdjustTxPower` reads it. -/
def Report.aux : Report → Int
  | .initial => 0
  | .noSignal => snrToAux apNoSignalSnr
  | .fromUs snr | .fromOther snr => snrToAux snr

def Report.measuredFromUs : Report → Bool
  | .fromUs _ => true
  | .initial | .noSignal | .fromOther _ => false

/-! ### Both ends -/

/-- Our power loop and the peer's side of the telemetry. `reported` records that since
`rx_aux_` was last reset a frame was accepted with an SNR the peer measured from us. -/
structure Telemetry where
  config : PowerConfig
  power : Int
  statusAt : UInt32
  lastRx : UInt32
  rxAux : Report
  reported : Bool
  peerTxAux : Report
  peerSnr : Report
deriving DecidableEq, Repr

namespace Telemetry

inductive Event where
  /-- Our board starts. -/
  | boot (config : PowerConfig) (power : Int)
  /-- `Init` or `NewSession` of our link. -/
  | resetLink
  /-- Another mode or other features. -/
  | configure (config : PowerConfig)
  /-- `SetTxPower` from the host or the menu. -/
  | setTxPower (power : Int)
  /-- A session frame, without telemetry. -/
  | session (now : UInt32)
  /-- A frame with another epoch of the peer. -/
  | peerReset
  /-- A frame of the peer is accepted. -/
  | accepted (now : UInt32)
  | status (now : UInt32)
  | peerBoot
  | peerInit
  /-- The radio of the peer takes a packet. -/
  | peerHears (ours : Bool) (snr : ℚ)
  /-- `SetAuxTx` at the peer, after its turn. -/
  | peerReports (silent : Bool)
deriving DecidableEq, Repr

/-- Two boards that were just started. -/
def start (config : PowerConfig) (power : Int) : Telemetry where
  config := config
  power := power
  statusAt := 0
  lastRx := 0
  rxAux := .initial
  reported := false
  peerTxAux := .initial
  peerSnr := .initial

/-- `MaybeStatus` runs `AdjustTxPower`. -/
def due (t : Telemetry) (now : UInt32) : Bool :=
  !(now - t.statusAt < statusPeriodMs)

def maybeStatus (t : Telemetry) (now : UInt32) : Telemetry :=
  if t.due now then
    { t with
      statusAt := now
      power := adjustTxPower t.config t.rxAux.aux (silentAt now t.lastRx) t.power }
  else t

def step (t : Telemetry) : Event → Telemetry
  | .boot config power =>
      { t with
        config := config
        power := power
        statusAt := 0
        lastRx := 0
        rxAux := .initial
        reported := false }
  | .resetLink | .peerReset => { t with rxAux := .initial, reported := false }
  | .configure config => { t with config := config }
  | .setTxPower power => { t with power := power }
  | .session now => { t with lastRx := now }
  | .accepted now =>
      { t with
        rxAux := t.peerTxAux
        lastRx := now
        reported := t.reported || t.peerTxAux.measuredFromUs }
  | .status now => t.maybeStatus now
  | .peerBoot => { t with peerTxAux := .initial, peerSnr := .initial }
  | .peerInit => { t with peerTxAux := .initial }
  | .peerHears ours snr => { t with peerSnr := if ours then .fromUs snr else .fromOther snr }
  | .peerReports silent => { t with peerTxAux := if silent then .noSignal else t.peerSnr }

/-! ### Cuts without a report -/

/-- Without a report, a pass of the loop does not lower the power. -/
def Holds (t : Telemetry) : Event → Prop
  | .status now => t.reported = false → t.power ≤ (t.step (.status now)).power
  | _ => True

/-- A byte that is no report and looks like headroom: the initial 0 in the slow and the far
mode unless FEAT_ADR aims a rung ahead, or a strong SNR of somebody else's packet. -/
def Misleads (config : PowerConfig) : Report → Prop
  | .initial =>
      config.feat &&& featAdr = 0 ∧
        (config.radio.currentModeIndex = modeIndexByName "slow" ∨
          config.radio.currentModeIndex = modeIndexByName "far")
  | .fromOther snr => autoPwrMarginHi < snrToAux snr - config.floor
  | .noSignal | .fromUs _ => False

/-- The pass runs the control law, and either on a link that is not silent, above the lowest
power, on such a byte, or in silence with a power above the maximum. -/
def Cuts (t : Telemetry) : Event → Prop
  | .status now =>
      t.reported = false ∧ t.due now = true ∧ t.config.feat &&& featApwr ≠ 0 ∧
        t.config.radio.phyFsk = false ∧
        if silentAt now t.lastRx then kTxPowerDbm < t.power
        else apPwrFloorDbm < t.power ∧ Misleads t.config t.rxAux
  | _ => False

instance (config : PowerConfig) (report : Report) : Decidable (Misleads config report) := by
  cases report <;> unfold Misleads <;> infer_instance

instance (t : Telemetry) (event : Event) : Decidable (t.Holds event) := by
  cases event <;> unfold Holds <;> infer_instance

instance (t : Telemetry) (event : Event) : Decidable (t.Cuts event) := by
  cases event <;> unfold Cuts <;> infer_instance

/-! ### The floors against the initial byte -/

theorem modeIndexByName_slow : modeIndexByName "slow" = some 3 := by decide +kernel

theorem modeIndexByName_far : modeIndexByName "far" = some 4 := by decide +kernel

/-- Only the slow and the far mode aim more than 12 dB below zero, and only for themselves. -/
theorem floor_cases (config : PowerConfig) :
    Misleads config .initial ∧ -20 ≤ config.floor ∧ config.floor < -12 ∨
      ¬Misleads config .initial ∧ -12 ≤ config.floor := by
  have half : lround (-15 / 2) = -8 := by norm_num [lround]
  have twelve : lround (-25 / 2) = -13 := by norm_num [lround]
  have five : lround (-5) = -5 := by norm_num [lround]
  have twenty : lround (-20) = -20 := by norm_num [lround]
  have fiveUp : ⌈(-5 : ℚ)⌉ = -5 := by norm_num
  have halfUp : ⌈(-15 / 2 : ℚ)⌉ = -7 := by norm_num
  have twelveUp : ⌈(-25 / 2 : ℚ)⌉ = -12 := by norm_num
  have outside (index : Nat) : ¬index + 4 + 1 < 5 := by omega
  rw [Misleads, modeIndexByName_slow, modeIndexByName_far]
  simp only [PowerConfig.floor, Radio.snrFloor, Radio.nextFasterSnrFloor, autoPowerTargetFloor]
  rcases config.radio.currentModeIndex with _ | _ | _ | _ | _ | _ | index <;>
    by_cases adr : config.feat &&& featAdr = 0 <;>
    simp [modeSnrFloor, adr, half, twelve, five, twenty, fiveUp, halfUp, twelveUp, outside]

theorem misleads_iff (config : PowerConfig) {report : Report}
    (unmeasured : report.measuredFromUs = false) :
    Misleads config report ↔ autoPwrMarginHi < report.aux - config.floor := by
  cases report with
  | initial =>
      simp only [Report.aux, autoPwrMarginHi]
      rcases floor_cases config with ⟨misleads, -, low⟩ | ⟨harmless, high⟩
      · exact iff_of_true misleads (by omega)
      · exact iff_of_false harmless (by omega)
  | noSignal =>
      have byte : snrToAux apNoSignalSnr = -30 := by norm_num [snrToAux, lround, apNoSignalSnr]
      refine iff_of_false id ?_
      simp only [Report.aux, autoPwrMarginHi, byte]
      rcases floor_cases config with ⟨-, bound, -⟩ | ⟨-, bound⟩ <;> omega
  | fromUs snr => cases unmeasured
  | fromOther snr => exact Iff.rfl

/-! ### One pass -/

/-- When the control law lowers the power. -/
theorem autoPowerStep_lt_iff (curTx peerSnr snrFloor floorDbm maxDbm : Int) (linkSilent : Bool) :
    autoPowerStep curTx peerSnr snrFloor floorDbm maxDbm linkSilent < curTx ↔
      if linkSilent then maxDbm < curTx
      else floorDbm < curTx ∧ autoPwrMarginHi < peerSnr - snrFloor := by
  have stepDb : autoPwrStepDb = 2 := rfl
  cases linkSilent with
  | true =>
      simp only [autoPowerStep, if_true]
      by_cases below : curTx < maxDbm
      · simp only [below, if_true]
        split <;> omega
      · simp only [below, if_false]
        split <;> omega
  | false =>
      simp only [autoPowerStep, Bool.false_eq_true, if_false]
      split
      · omega
      · split <;> omega

/-- When `AdjustTxPower` lowers the power. -/
theorem adjustTxPower_lt_iff (config : PowerConfig) (auxRx : Int) (linkSilent : Bool)
    (power : Int) :
    adjustTxPower config auxRx linkSilent power < power ↔
      config.feat &&& featApwr ≠ 0 ∧ config.radio.phyFsk = false ∧
        if linkSilent then kTxPowerDbm < power
        else apPwrFloorDbm < power ∧ autoPwrMarginHi < auxRx - config.floor := by
  rw [← autoPowerStep_lt_iff]
  unfold adjustTxPower
  by_cases off : config.feat &&& featApwr = 0
  · simp [off]
  · cases fsk : config.radio.phyFsk <;> simp [off]

variable {t : Telemetry}

/-- The byte we hold before the first report was not measured from us. -/
def Unread (t : Telemetry) : Prop :=
  t.reported = false → t.rxAux.measuredFromUs = false

theorem unread_step (unread : t.Unread) (event : Event) : (t.step event).Unread := by
  cases event with
  | boot config power => exact fun _ => rfl
  | resetLink => exact fun _ => rfl
  | peerReset => exact fun _ => rfl
  | accepted now =>
      intro none
      exact (Bool.or_eq_false_iff.mp none).2
  | status now =>
      simp only [step, maybeStatus]
      split <;> exact unread
  | configure config => exact unread
  | setTxPower power => exact unread
  | session now => exact unread
  | peerBoot => exact unread
  | peerInit => exact unread
  | peerHears ours snr => exact unread
  | peerReports silent => exact unread

theorem holds_iff (unread : t.Unread) (event : Event) : t.Holds event ↔ ¬t.Cuts event := by
  cases event with
  | status now =>
      simp only [Holds, Cuts, not_and]
      refine forall_congr' fun silent => ?_
      have cuts := adjustTxPower_lt_iff t.config t.rxAux.aux (silentAt now t.lastRx) t.power
      rw [← misleads_iff t.config (unread silent)] at cuts
      simp only [step, maybeStatus]
      by_cases due : t.due now = true
      · rw [if_pos due, ← not_lt, cuts]
        simp [due]
      · rw [if_neg due]
        simp [due]
  | _ => exact iff_of_true trivial id

/-- Over any run of both boards, the power is never lowered without a report exactly when
no pass runs on a byte that misleads it. -/
theorem no_cut_iff (config : PowerConfig) (power : Int) (events : List Event) :
    Along step Holds (start config power) events ↔
      Along step (fun t event => ¬t.Cuts event) (start config power) events :=
  along_iff (fun _ event unread => holds_iff unread event)
    (fun _ event unread _ => unread_step unread event) (fun _ => rfl) events

/-- A responder pinned to the far mode. -/
def farResponder : PowerConfig where
  feat := featApwr
  radio := { cfg := ⟨12, 0, 8⟩, phy := .lora ⟨12, 0, 8⟩ }

/-- The first poll after a boot carries the initial byte, and costs the responder 2 dB. -/
theorem cut_on_first_poll :
    let events : List Event := [.session 4000, .accepted 5000, .status 5000]
    let last := events.foldl step (start farResponder 22)
    last.reported = false ∧ last.power = 20 ∧
      ¬Along step Holds (start farResponder 22) events := by
  decide +kernel

end Telemetry

end LoraSerial.Device
