import LoraSerial.Device.Radio
import LoraSerial.Host.Board
import LoraSerial.Host.ByteRing
import LoraSerial.Library.Run
import Mathlib.Data.List.TakeWhile

/-!
Owns the settings of a board in all the forms it keeps them: `cfg` in memory, the entries
in flash, and what the radio, the role and the send queue were last given. Owns the boot
that rebuilds them and every command, menu item and link event that changes one of them.
Does not own the link behind the settings. A carrier frequency is the bits of a binary32.
Flash writes reach the flash.
-/

namespace LoraSerial.Device

open Host (Flash FlashWrite Policy Settings featComp featEnc featFs)
open Library

/-! ### Constants -/

/-- The defaults a build may override. -/
structure Build where
  nodeAddr : UInt8
  peerAddr : UInt8
  nodeName : List UInt8
  featDefault : UInt8
  mode : PhyConfig
  freq : UInt32

def featAdr : UInt8 := 0x08
def featGfsk : UInt8 := 0x10
def featApwr : UInt8 := 0x40

def bufmodeKeepall : UInt8 := 0
def bufmodeKeeplatest : UInt8 := 1
def bufModeDefault : UInt8 := bufmodeKeepall
def bufKeepDefault : UInt32 := 8192
def syncWord : UInt8 := 0x12
def txPowerDbm : Int8 := 22
def proxPairDbm : Int8 := 0

/-- `fw_config.h` with nothing overridden. -/
def Build.standard : Build where
  nodeAddr := 1
  peerAddr := 0
  nodeName := [0x6e, 0x6f, 0x64, 0x65]
  featDefault := featComp ||| featEnc
  mode := ⟨12, 0, 8⟩
  freq := 0x4466cccd

/-! ### Carrier -/

/-- Orders the binary32 values that are numbers; the two zeros are equal. -/
def floatKey (bits : UInt32) : Int :=
  if bits < 0x80000000 then bits.toNat else -(bits.toNat - 0x80000000 : Nat)

def floatNan (bits : UInt32) : Bool :=
  0x7f800000 < bits &&& 0x7fffffff

/-- `<` of two floats. -/
def floatLt (a b : UInt32) : Bool :=
  !floatNan a && !floatNan b && floatKey a < floatKey b

def freqMinMhz : UInt32 := 0x43160000
def freqMaxMhz : UInt32 := 0x44700000

/-- A row of `kRegions`. -/
structure Region where
  min : UInt32
  max : UInt32
  default : UInt32

inductive RegionId where
  | tw | us | eu
deriving DecidableEq, Repr

def regions : RegionId → Region
  | .tw => { min := 0x44660000, max := 0x44674000, default := 0x44664000 }
  | .us => { min := 0x44618000, max := 0x44680000, default := 0x4464c000 }
  | .eu => { min := 0x4457c000, max := 0x44598000, default := 0x44590000 }

/-! ### The three forms -/

def nameMax : Nat := 15

/-- `cfg.name` up to its terminator. -/
@[ext]
structure BoardName where
  bytes : List UInt8
  short : bytes.length ≤ nameMax
  noNul : 0 ∉ bytes
deriving DecidableEq

/-- `strncpy` from a C string, and a terminator in the last cell. -/
def BoardName.copy (s : List UInt8) : BoardName where
  bytes := (s.takeWhile (· ≠ 0)).take nameMax
  short := List.length_take_le _ _
  noNul member := by simpa using List.mem_takeWhile_imp (List.mem_of_mem_take member)

theorem BoardName.copy_bytes (name : BoardName) : copy name.bytes = name := by
  have whole : name.bytes.takeWhile (· ≠ 0) = name.bytes :=
    List.takeWhile_eq_self_iff.mpr fun byte member =>
      decide_eq_true fun nul => name.noNul (nul ▸ member)
  ext1
  change (name.bytes.takeWhile (· ≠ 0)).take nameMax = name.bytes
  rw [whole, List.take_of_length_le name.short]

/-- `sf`, `bw_code` and `cr` are `mode`; `addr`, `peer` and `feat` are `link`. -/
structure ModemSettings where
  link : Settings
  name : BoardName
  mode : PhyConfig
  freq : UInt32
  sync : UInt8
  bufmode : UInt8
  bufkeep : UInt32
deriving DecidableEq

/-- Static storage before `LoadSettings`. -/
def ModemSettings.zeroed : ModemSettings where
  link := ⟨0, 0, 0⟩
  name := .copy []
  mode := ⟨0, 0, 0⟩
  freq := 0
  sync := 0
  bufmode := 0
  bufkeep := 0

/-- The entries of the namespace that hold settings. -/
structure Prefs where
  link : Flash
  name : Option (List UInt8)
  sf : Option UInt8
  bw : Option UInt8
  cr : Option UInt8
  freq : Option UInt32
  sync : Option UInt8
  pwr : Option UInt8
  bmode : Option UInt8
  bkeep : Option UInt32
deriving DecidableEq

/-- `prefs.clear()` -/
def Prefs.cleared : Prefs where
  link := ⟨none, none, none, none, none⟩
  name := none
  sf := none
  bw := none
  cr := none
  freq := none
  sync := none
  pwr := none
  bmode := none
  bkeep := none

/-- A board on: `phy` is what the chip was configured with, `policy` and `keep` are the
send queue's. -/
structure Modem where
  cfg : ModemSettings
  phy : Phy
  txPower : Int8
  initiator : Bool
  policy : Policy
  keep : UInt32
  prefs : Prefs
deriving DecidableEq

/-- The lower address initiates turns. -/
def recomputeRole (link : Settings) : Bool :=
  if link.peer = 0 then link.addr == 1 else link.addr < link.peer

def assignAddrs (isInitiator : Bool) (link : Settings) : Settings :=
  { link with
    addr := if isInitiator then 1 else 2
    peer := if isInitiator then 2 else 1 }

/-- The settings `LoadSettings` leaves in `cfg`. -/
def Prefs.settings (build : Build) (prefs : Prefs) : ModemSettings where
  link :=
    { addr := prefs.link.addr.getD build.nodeAddr
      peer := prefs.link.peer.getD build.peerAddr
      feat := prefs.link.feat.getD build.featDefault }
  name := .copy (prefs.name.getD build.nodeName)
  mode := ⟨prefs.sf.getD build.mode.sf, prefs.bw.getD build.mode.bwCode,
    prefs.cr.getD build.mode.cr⟩
  freq := prefs.freq.getD build.freq
  sync := prefs.sync.getD syncWord
  bufmode := prefs.bmode.getD bufModeDefault
  bufkeep := prefs.bkeep.getD bufKeepDefault

/-- The policy `bufmode` stands for. -/
def ModemSettings.policy (cfg : ModemSettings) : Policy :=
  if cfg.bufmode = bufmodeKeeplatest then .keepLatest else .keepAll

namespace Modem

/-! ### Operations -/

def radio (modem : Modem) : Radio where
  cfg := modem.cfg.mode
  phy := modem.phy

def withRadio (modem : Modem) (radio : Radio) : Modem :=
  { modem with cfg := { modem.cfg with mode := radio.cfg }, phy := radio.phy }

def withLink (modem : Modem) (link : Settings) : Modem :=
  { modem with cfg := { modem.cfg with link := link } }

def setFeature (modem : Modem) (feature : UInt8) (on : Bool) : Modem :=
  modem.withLink (modem.cfg.link.setFeature feature on)

def setTxPower (modem : Modem) (dbm : Int8) : Modem :=
  { modem with txPower := dbm }

def setFrequency (modem : Modem) (freq : UInt32) : Modem :=
  { modem with cfg := { modem.cfg with freq := freq } }

def applyMode (modem : Modem) (cfg : PhyConfig) : Modem :=
  modem.withRadio (modem.radio.applyMode cfg)

def applyModeByIndex (modem : Modem) (idx : Option Nat) : Modem :=
  modem.withRadio (modem.radio.applyModeByIndex idx).2

def recomputeRole (modem : Modem) : Modem :=
  { modem with initiator := Device.recomputeRole modem.cfg.link }

def applyBufPolicy (modem : Modem) : Modem :=
  { modem with policy := modem.cfg.policy, keep := modem.cfg.bufkeep }

def setBufmode (modem : Modem) (bufmode : UInt8) : Modem :=
  { modem with cfg := { modem.cfg with bufmode := bufmode } }.applyBufPolicy

def setBufkeep (modem : Modem) (bufkeep : UInt32) : Modem :=
  { modem with cfg := { modem.cfg with bufkeep := bufkeep } }.applyBufPolicy

/-- Loads `cfg` and the power; the power is a byte in flash. -/
def loadSettings (build : Build) (modem : Modem) : Modem :=
  { modem with cfg := modem.prefs.settings build }.setTxPower
    (modem.prefs.pwr.getD txPowerDbm.toUInt8).toInt8

def persistRole (modem : Modem) : Modem :=
  { modem with
    prefs :=
      { modem.prefs with
        link := modem.prefs.link.writeAll
          [.putAddr modem.cfg.link.addr, .putPeer modem.cfg.link.peer] } }

def saveSettings (modem : Modem) : Modem :=
  { modem with
    prefs :=
      { link := modem.prefs.link.writeAll
          [.putAddr modem.cfg.link.addr, .putPeer modem.cfg.link.peer,
            .putFeat modem.cfg.link.feat]
        name := some modem.cfg.name.bytes
        sf := some modem.cfg.mode.sf
        bw := some modem.cfg.mode.bwCode
        cr := some modem.cfg.mode.cr
        freq := some modem.cfg.freq
        sync := some modem.cfg.sync
        pwr := some modem.txPower.toUInt8
        bmode := some modem.cfg.bufmode
        bkeep := some modem.cfg.bufkeep } }

/-- RAM after a reset, the radio up at the control configuration. -/
def reset (prefs : Prefs) : Modem where
  cfg := .zeroed
  phy := .lora ⟨12, 0, 8⟩
  txPower := txPowerDbm
  initiator := true
  policy := .keepAll
  keep := 0
  prefs := prefs

/-- `Setup` up to the start of the radio task, in its order: the queue is set up before
the settings are loaded. -/
def setup (build : Build) (prefs : Prefs) : Modem :=
  let started := ((reset prefs).applyBufPolicy.applyMode build.mode).loadSettings build
  (started.applyMode started.cfg.mode).recomputeRole

/-- `AT&F` -/
def factoryReset (build : Build) (modem : Modem) : Modem :=
  let loaded := { modem with prefs := .cleared }.loadSettings build
  (loaded.applyMode loaded.cfg.mode).recomputeRole

/-- A reboot keeps nothing but the flash. -/
def reboot (build : Build) (modem : Modem) : Modem :=
  setup build modem.prefs

end Modem

/-! ### Events -/

/-- The feature bits with a command and a menu item of their own. -/
inductive Feature where
  | gfsk | fs | apwr | enc | comp
deriving DecidableEq, Repr

def Feature.bit : Feature → UInt8
  | .gfsk => featGfsk
  | .fs => featFs
  | .apwr => featApwr
  | .enc => featEnc
  | .comp => featComp

/-- The AT commands that change a setting, with the value `sscanf` parsed. -/
inductive AtCommand where
  | addr (v : Int)
  | peer (v : Int)
  | pwr (v : Int)
  | fmode (name : String)
  | modeAuto
  | mode (name : String)
  | feature (feature : Feature) (v : Int)
  | name (s : List UInt8)
  | freq (fv : UInt32)
  | sync (v : Int)
  | bufmode (policy : Policy)
  | bufkeep (v : Int)
  | save
  | factoryReset

/-- The config menu's items, with the value that was confirmed. -/
inductive MenuItem where
  | feature (feature : Feature) (on : Bool)
  | region (region : RegionId)
  | freq (value : UInt32)
  | mode (idx : Nat)
  | power (value : Int)
  | bufmode (keeplatest : Bool)
  | bufkeep (kib : UInt32)

/-- What changes the settings of a board that is on. Besides the host and the menu: the
mode-switch engine and the rendezvous apply a mode, the menu saves a switch that landed,
the power control and pairing set the power, pairing elects a role, turns encryption on
and saves the role, and a wedged radio is configured again. -/
inductive SettingsEvent where
  | reboot
  | at (command : AtCommand)
  | menu (item : MenuItem)
  | modeSwitched (idx : Option Nat)
  | modeSaved (target : Nat)
  | powerSet (dbm : Int8)
  | elected (isInitiator : Bool)
  | trained
  | rolePersisted
  | reinit

namespace Modem

/-- `AtExec`, as far as it changes a setting. -/
def atExec (build : Build) (modem : Modem) : AtCommand → Modem
  | .addr v => (modem.withLink { modem.cfg.link with addr := .ofInt v }).recomputeRole
  | .peer v => (modem.withLink { modem.cfg.link with peer := .ofInt v }).recomputeRole
  | .pwr v => modem.setTxPower (.ofInt v)
  | .fmode name =>
      match modeIndexByName name with
      | none => modem
      | some idx => (modem.applyModeByIndex (some idx)).setFeature featAdr false
  | .modeAuto => modem.setFeature featAdr true
  | .mode name =>
      match modeIndexByName name with
      | none => modem
      | some idx =>
          -- The initiator asks the peer first; the switch itself is a later event.
          if modem.initiator then modem.setFeature featAdr false
          else (modem.setFeature featAdr false).applyModeByIndex (some idx)
  | .feature feature v => modem.setFeature feature.bit (v ≠ 0)
  | .name s => { modem with cfg := { modem.cfg with name := .copy s } }
  | .freq fv =>
      if floatLt fv freqMinMhz || floatLt freqMaxMhz fv then modem else modem.setFrequency fv
  | .sync v => { modem with cfg := { modem.cfg with sync := .ofInt v } }
  | .bufmode .keepLatest => modem.setBufmode bufmodeKeeplatest
  | .bufmode .keepAll => modem.setBufmode bufmodeKeepall
  | .bufkeep v => if v < 0 then modem else modem.setBufkeep (.ofInt v)
  | .save => modem.saveSettings
  | .factoryReset => modem.factoryReset build

/-- `Display::ServiceConfig`, as far as it changes a setting. -/
def serviceConfig (modem : Modem) : MenuItem → Modem
  | .feature feature on => (modem.setFeature feature.bit on).saveSettings
  | .region region =>
      let row := regions region
      if floatLt modem.cfg.freq row.min || floatLt row.max modem.cfg.freq then
        (modem.setFrequency row.default).saveSettings
      else modem.saveSettings
  | .freq value => (modem.setFrequency value).saveSettings
  | .mode idx =>
      let pinned := modem.setFeature featAdr false
      if modem.initiator then
        if some idx = modem.radio.currentModeIndex then pinned.saveSettings else pinned
      else (pinned.applyModeByIndex (some idx)).saveSettings
  | .power value => (modem.setTxPower (.ofInt value)).saveSettings
  | .bufmode keeplatest =>
      (modem.setBufmode (if keeplatest then bufmodeKeeplatest else bufmodeKeepall)).saveSettings
  | .bufkeep kib => (modem.setBufkeep (kib * 1024)).saveSettings

def step (build : Build) (modem : Modem) : SettingsEvent → Modem
  | .reboot => modem.reboot build
  | .at command => modem.atExec build command
  | .menu item => modem.serviceConfig item
  | .modeSwitched idx => modem.applyModeByIndex idx
  | .modeSaved target =>
      if modem.radio.currentModeIndex = some target then modem.saveSettings else modem
  | .powerSet dbm => modem.setTxPower dbm
  | .elected isInitiator =>
      { modem.withLink (assignAddrs isInitiator modem.cfg.link) with initiator := isInitiator }
  | .trained => modem.setFeature featEnc true
  | .rolePersisted => modem.persistRole
  | .reinit => modem.withRadio modem.radio.reinit

/-- A boot and what happens after it. -/
def run (build : Build) (prefs : Prefs) (events : List SettingsEvent) : Modem :=
  events.foldl (step build) (setup build prefs)

/-! ### What a boot and a save do -/

/-- A boot rebuilds everything from the flash but the send queue, which it set up from a
zeroed `cfg`. -/
theorem setup_eq (build : Build) (prefs : Prefs) :
    setup build prefs =
      { cfg := prefs.settings build
        phy := .lora (prefs.settings build).mode
        txPower := (prefs.pwr.getD txPowerDbm.toUInt8).toInt8
        initiator := Device.recomputeRole (prefs.settings build).link
        policy := .keepAll
        keep := 0
        prefs := prefs } := rfl

/-- A factory reset rebuilds everything from the defaults but the send queue, which it
leaves alone. -/
theorem factoryReset_eq (build : Build) (modem : Modem) :
    modem.factoryReset build =
      { setup build .cleared with policy := modem.policy, keep := modem.keep } := rfl

/-- What `SaveSettings` stores, `LoadSettings` reads back. -/
theorem settings_saveSettings (build : Build) (modem : Modem) :
    modem.saveSettings.prefs.settings build = modem.cfg := by
  have name := BoardName.copy_bytes modem.cfg.name
  calc modem.saveSettings.prefs.settings build
      = { modem.cfg with name := .copy modem.cfg.name.bytes } := rfl
    _ = modem.cfg := by rw [name]

/-- The board after `AT&W` and a reboot. -/
theorem reboot_saveSettings (build : Build) (modem : Modem) :
    modem.saveSettings.reboot build =
      { cfg := modem.cfg
        phy := .lora modem.cfg.mode
        txPower := modem.txPower
        initiator := Device.recomputeRole modem.cfg.link
        policy := .keepAll
        keep := 0
        prefs := modem.saveSettings.prefs } := by
  have power : (modem.saveSettings.prefs.pwr.getD txPowerDbm.toUInt8).toInt8 = modem.txPower :=
    Int8.toInt8_toUInt8 modem.txPower
  rw [reboot, setup_eq, settings_saveSettings, power]

/-- The radio after a boot, as the radio's own model has it. -/
theorem radio_setup (build : Build) (prefs : Prefs) :
    (setup build prefs).radio = Radio.setup build.mode (prefs.settings build).mode := rfl

/-- The link's part of the settings, as the board's model of its link loads it. -/
theorem link_settings {RING : Nat} {fw : Host.Firmware} {build : Build}
    (addr : fw.nodeAddr = build.nodeAddr) (peer : fw.peerAddr = build.peerAddr)
    (feat : fw.featDefault = build.featDefault) (ram : Host.Ram RING) (prefs : Prefs) :
    (ram.loadSettings fw prefs.link).cfg = (prefs.settings build).link := by
  simp only [Host.Ram.loadSettings, Prefs.settings, addr, peer, feat]

/-! ### Consistency -/

/-- The radio runs what `cfg` says, and the role follows from the addresses. -/
structure Consistent (modem : Modem) : Prop where
  coherent : modem.radio.Coherent
  role : modem.initiator = Device.recomputeRole modem.cfg.link

variable {modem : Modem}

theorem consistent_setup (build : Build) (prefs : Prefs) : (setup build prefs).Consistent where
  coherent := .lora _
  role := rfl

theorem consistent_recomputeRole (coherent : modem.radio.Coherent) :
    modem.recomputeRole.Consistent where
  coherent := coherent
  role := rfl

namespace Consistent

/-- The feature bits have no part in the role. -/
theorem setFeature (consistent : modem.Consistent) (feature : UInt8) (on : Bool) :
    (modem.setFeature feature on).Consistent :=
  ⟨consistent.coherent, consistent.role⟩

theorem withRadio (consistent : modem.Consistent) {radio : Radio} (coherent : radio.Coherent) :
    (modem.withRadio radio).Consistent :=
  ⟨coherent, consistent.role⟩

theorem applyModeByIndex (consistent : modem.Consistent) (idx : Option Nat) :
    (modem.applyModeByIndex idx).Consistent :=
  consistent.withRadio (Radio.coherent_applyModeByIndex consistent.coherent idx)

theorem saveSettings (consistent : modem.Consistent) : modem.saveSettings.Consistent :=
  ⟨consistent.coherent, consistent.role⟩

theorem setTxPower (consistent : modem.Consistent) (dbm : Int8) :
    (modem.setTxPower dbm).Consistent :=
  ⟨consistent.coherent, consistent.role⟩

theorem setFrequency (consistent : modem.Consistent) (freq : UInt32) :
    (modem.setFrequency freq).Consistent :=
  ⟨consistent.coherent, consistent.role⟩

theorem setBufmode (consistent : modem.Consistent) (bufmode : UInt8) :
    (modem.setBufmode bufmode).Consistent :=
  ⟨consistent.coherent, consistent.role⟩

theorem setBufkeep (consistent : modem.Consistent) (bufkeep : UInt32) :
    (modem.setBufkeep bufkeep).Consistent :=
  ⟨consistent.coherent, consistent.role⟩

theorem atExec (consistent : modem.Consistent) (build : Build) (command : AtCommand) :
    (modem.atExec build command).Consistent := by
  cases command with
  | addr v => exact consistent_recomputeRole consistent.coherent
  | peer v => exact consistent_recomputeRole consistent.coherent
  | pwr v => exact consistent.setTxPower _
  | fmode name =>
      dsimp only [Modem.atExec]
      split
      next => exact consistent
      next idx _ => exact (consistent.applyModeByIndex (some idx)).setFeature _ _
  | modeAuto => exact consistent.setFeature _ _
  | mode name =>
      dsimp only [Modem.atExec]
      split
      next => exact consistent
      next idx _ =>
        split
        next => exact consistent.setFeature _ _
        next => exact (consistent.setFeature _ _).applyModeByIndex _
  | feature feature v => exact consistent.setFeature _ _
  | name s => exact ⟨consistent.coherent, consistent.role⟩
  | freq fv =>
      dsimp only [Modem.atExec]
      split
      next => exact consistent
      next => exact consistent.setFrequency fv
  | sync v => exact ⟨consistent.coherent, consistent.role⟩
  | bufmode policy =>
      cases policy with
      | keepAll => exact consistent.setBufmode _
      | keepLatest => exact consistent.setBufmode _
  | bufkeep v =>
      dsimp only [Modem.atExec]
      split
      next => exact consistent
      next => exact consistent.setBufkeep _
  | save => exact consistent.saveSettings
  | factoryReset => exact ⟨.lora _, rfl⟩

theorem serviceConfig (consistent : modem.Consistent) (item : MenuItem) :
    (modem.serviceConfig item).Consistent := by
  cases item with
  | feature feature on => exact (consistent.setFeature _ _).saveSettings
  | region region =>
      dsimp only [Modem.serviceConfig]
      split
      next => exact (consistent.setFrequency _).saveSettings
      next => exact consistent.saveSettings
  | freq value => exact (consistent.setFrequency _).saveSettings
  | mode idx =>
      have pinned := consistent.setFeature featAdr false
      dsimp only [Modem.serviceConfig]
      split
      next =>
        split
        next => exact pinned.saveSettings
        next => exact pinned
      next => exact (pinned.applyModeByIndex _).saveSettings
  | power value => exact (consistent.setTxPower _).saveSettings
  | bufmode keeplatest => exact (consistent.setBufmode _).saveSettings
  | bufkeep kib => exact (consistent.setBufkeep _).saveSettings

theorem step (consistent : modem.Consistent) (build : Build) (event : SettingsEvent) :
    (modem.step build event).Consistent := by
  cases event with
  | reboot => exact consistent_setup build modem.prefs
  | «at» command => exact consistent.atExec build command
  | menu item => exact consistent.serviceConfig item
  | modeSwitched idx => exact consistent.applyModeByIndex idx
  | modeSaved target =>
      dsimp only [Modem.step]
      split
      next => exact consistent.saveSettings
      next => exact consistent
  | powerSet dbm => exact consistent.setTxPower dbm
  | elected isInitiator =>
      refine ⟨consistent.coherent, ?_⟩
      cases isInitiator with
      | true => rfl
      | false => rfl
  | trained => exact consistent.setFeature _ _
  | rolePersisted => exact ⟨consistent.coherent, consistent.role⟩
  | reinit =>
      refine consistent.withRadio ?_
      rw [consistent.coherent.reinit]
      exact consistent.coherent

end Consistent

theorem consistent_run (build : Build) (prefs : Prefs) (events : List SettingsEvent) :
    (run build prefs events).Consistent :=
  List.foldlRecOn events (step build) (consistent_setup build prefs)
    fun _ consistent event _ => consistent.step build event

/-! ### Save and reboot -/

/-- What a save and a reboot are to bring back. -/
structure Restored (after before : Modem) : Prop where
  cfg : after.cfg = before.cfg
  modeIndex : after.radio.currentModeIndex = before.radio.currentModeIndex
  phy : after.phy = before.phy
  txPower : after.txPower = before.txPower
  initiator : after.initiator = before.initiator

/-- A reboot runs the radio in LoRa on whatever was saved, so every board whose radio runs
LoRa is restored, and none in GFSK. -/
theorem reboot_restores_iff (build : Build) (prefs : Prefs) (events : List SettingsEvent) :
    ((run build prefs events).saveSettings.reboot build).Restored (run build prefs events) ↔
      (run build prefs events).phy ≠ .fsk := by
  have consistent := consistent_run build prefs events
  generalize run build prefs events = modem at consistent ⊢
  rw [reboot_saveSettings]
  constructor
  · intro restored gfsk
    have phy : Phy.lora modem.cfg.mode = modem.phy := restored.phy
    rw [gfsk] at phy
    cases phy
  · intro lora
    have phy : Phy.lora modem.cfg.mode = modem.phy := (consistent.coherent.phy_eq lora).symm
    have radio : ({ cfg := modem.cfg.mode, phy := .lora modem.cfg.mode } : Radio) = modem.radio := by
      rw [phy]
      rfl
    exact
      { cfg := rfl
        modeIndex := congrArg Radio.currentModeIndex radio
        phy := phy
        txPower := rfl
        initiator := consistent.role.symm }

/-- A fresh board forced into GFSK. -/
def forcedGfsk : Modem :=
  run .standard .cleared [.at (.fmode "ludicrous")]

/-- Saved and rebooted, it runs LoRa on the settings that stand for GFSK. -/
theorem gfsk_not_restored :
    ¬(forcedGfsk.saveSettings.reboot .standard).Restored forcedGfsk ∧
      forcedGfsk.radio.currentModeIndex = some 5 ∧
      (forcedGfsk.saveSettings.reboot .standard).radio.currentModeIndex = none := by
  have forced : forcedGfsk.phy = .fsk := by decide +kernel
  refine ⟨fun restored => ?_, by decide +kernel, by decide +kernel⟩
  have phy := restored.phy
  rw [reboot_saveSettings, forced] at phy
  cases phy

end Modem

end LoraSerial.Device
