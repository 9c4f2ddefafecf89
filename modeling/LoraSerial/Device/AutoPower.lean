import LoraSerial.Device.Settings
import Mathlib.Data.Rat.Floor

/-!
Owns the power loop of one end: the control law, the telemetry byte that feeds it, and the
cadence it runs on. A measured SNR is a rational number of decibels, a power an integer of
dBm that stays far inside an `int8_t`.
-/

namespace LoraSerial.Device

/-! ### Control law -/

def autoPwrMarginHi : Int := 12
def autoPwrMarginLo : Int := 6
def autoPwrStepDb : Int := 2
def apNoSignalSnr : Int := -30

def autoPowerStep (curTx peerSnr snrFloor floorDbm maxDbm : Int) (linkSilent : Bool) : Int :=
  if linkSilent then
    let curTx := if curTx < maxDbm then curTx + autoPwrStepDb else curTx
    if curTx > maxDbm then maxDbm else curTx
  else
    let margin := peerSnr - snrFloor
    if margin > autoPwrMarginHi ∧ curTx > floorDbm then curTx - autoPwrStepDb
    else if margin < autoPwrMarginLo ∧ curTx < maxDbm then curTx + autoPwrStepDb
    else curTx

def autoPowerTargetFloor (adrActive : Bool) (curFloor : Int) (nextFloor : Option Int) : Int :=
  match nextFloor with
  | none => curFloor
  | some nextFloor => if adrActive then nextFloor else curFloor

/-- `lroundf`: halves go away from zero. -/
def lround (x : ℚ) : Int :=
  if 0 ≤ x then ⌊x + 1 / 2⌋ else -⌊1 / 2 - x⌋

/-- The byte read back as a signed number. -/
def snrToAux (snr : ℚ) : Int :=
  lround (max (-128) (min 127 snr))

/-! ### Floors -/

/-- `kModeSnrFloor` has the LoRa presets only. -/
def modeSnrFloor : List ℚ := [-5, -15 / 2, -15 / 2, -25 / 2, -20]

def Radio.snrFloor (radio : Radio) : Int :=
  match radio.currentModeIndex.bind (modeSnrFloor[·]?) with
  | none => 0
  | some floor => lround floor

/-- The floor of the next faster LoRa preset, rounded up. -/
def Radio.nextFasterSnrFloor (radio : Radio) : Option Int :=
  match radio.currentModeIndex with
  | none | some 0 => none
  | some (faster + 1) =>
      if faster + 1 < modeSnrFloor.length then modeSnrFloor[faster]?.map fun floor => ⌈floor⌉
      else none

/-! ### The loop -/

def apPwrFloorDbm : Int := -9
def kTxPowerDbm : Int := txPowerDbm.toInt
def statusPeriodMs : UInt32 := 1500
def apSilentMs : UInt32 := 3000

/-- The settings `AdjustTxPower` reads. -/
structure PowerConfig where
  feat : UInt8
  radio : Radio
deriving DecidableEq, Repr

/-- The demodulation floor the loop holds its margin above. -/
def PowerConfig.floor (config : PowerConfig) : Int :=
  autoPowerTargetFloor (config.feat &&& featAdr != 0) config.radio.snrFloor
    config.radio.nextFasterSnrFloor

def adjustTxPower (config : PowerConfig) (auxRx : Int) (linkSilent : Bool) (txPower : Int) : Int :=
  if config.feat &&& featApwr = 0 then txPower
  else if config.radio.phyFsk then txPower
  else autoPowerStep txPower auxRx config.floor apPwrFloorDbm kTxPowerDbm linkSilent

/-- Nothing valid was heard for longer than the limit. -/
def silentAt (now lastRx : UInt32) : Bool :=
  apSilentMs < now - lastRx

/-- Our end and what the peer knows of it: `peerSnr` is the SNR of the last frame the peer
heard, `auxTx` the byte on its frames, `auxRx` the byte of the last one we heard. -/
structure PowerLoop where
  power : Int
  statusAt : UInt32
  lastRx : UInt32
  auxRx : Int
  auxTx : Int
  peerLastRx : UInt32
  peerSnr : ℚ
deriving DecidableEq, Repr

/-- The peer hears a frame of ours, ends the listening of its turn, one of its frames
reaches us, and our loop comes by `MaybeStatus`. -/
inductive PowerEvent where
  | measured (now : UInt32)
  | reported (now : UInt32)
  | heard (now : UInt32)
  | status (now : UInt32)
deriving DecidableEq, Repr

namespace PowerLoop

/-- Both ends after a boot. -/
def boot (power : Int) : PowerLoop where
  power := power
  statusAt := 0
  lastRx := 0
  auxRx := 0
  auxTx := 0
  peerLastRx := 0
  peerSnr := 0

/-- `MaybeStatus` runs `AdjustTxPower`. -/
def due (loop : PowerLoop) (now : UInt32) : Bool :=
  !(now - loop.statusAt < statusPeriodMs)

def maybeStatus (config : PowerConfig) (loop : PowerLoop) (now : UInt32) : PowerLoop :=
  if loop.due now then
    { loop with
      statusAt := now
      power := adjustTxPower config loop.auxRx (silentAt now loop.lastRx) loop.power }
  else loop

/-- On a path of constant gain the peer measures our power plus that constant. -/
def step (config : PowerConfig) (gain : ℚ) (loop : PowerLoop) : PowerEvent → PowerLoop
  | .measured now => { loop with peerSnr := loop.power + gain, peerLastRx := now }
  | .reported now =>
      { loop with
        auxTx := snrToAux (if silentAt now loop.peerLastRx then apNoSignalSnr else loop.peerSnr) }
  | .heard now => { loop with auxRx := loop.auxTx, lastRx := now }
  | .status now => loop.maybeStatus config now

end PowerLoop

end LoraSerial.Device
