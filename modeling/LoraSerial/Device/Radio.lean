import Mathlib.Algebra.GroupWithZero.Nat
import Mathlib.Data.Nat.Notation
import Mathlib.Data.List.Basic

/-!
Owns the mode of the radio: the preset table, the settings in `cfg`, what the chip was
last configured with, and the timing that follows from its time on air. The time on
air RadioLib reports is an argument. Carrier, sync word and power are not modelled.
-/

namespace LoraSerial.Device

/-! ### Presets -/

/-- A row of `kRfModes`. -/
structure RfMode where
  name : String
  sf : UInt8
  bwCode : UInt8
  cr : UInt8
  fsk : Bool
deriving DecidableEq, Repr

def rfModes : List RfMode :=
  [{ name := "turbo", sf := 5, bwCode := 2, cr := 5, fsk := false },
    { name := "fast", sf := 7, bwCode := 2, cr := 5, fsk := false },
    { name := "medium", sf := 7, bwCode := 1, cr := 5, fsk := false },
    { name := "slow", sf := 9, bwCode := 0, cr := 6, fsk := false },
    { name := "far", sf := 12, bwCode := 0, cr := 8, fsk := false },
    { name := "ludicrous", sf := 0, bwCode := 0, cr := 0, fsk := true }]

def rfModeCount : Nat := rfModes.length

/-- `strcasecmp` against the table. -/
def modeIndexByName (name : String) : Option Nat :=
  rfModes.findIdx? fun mode => name.toLower == mode.name

def medium : Nat := 2

/-- The LoRa presets come first. -/
def loraModeCount : Nat := 5

instance : NeZero loraModeCount := ⟨Nat.succ_ne_zero _⟩

example : modeIndexByName "medium" = some medium := by decide +kernel

/-! ### Settings -/

/-- `cfg.sf`, `cfg.bw_code` and `cfg.cr`. -/
structure PhyConfig where
  sf : UInt8
  bwCode : UInt8
  cr : UInt8
deriving DecidableEq, Repr

/-- The arguments of the last `ApplyMode`, or GFSK with its fixed parameters. -/
inductive Phy where
  | lora (cfg : PhyConfig)
  | fsk
deriving DecidableEq, Repr

structure Radio where
  cfg : PhyConfig
  phy : Phy
deriving DecidableEq, Repr

namespace Radio

def phyFsk (radio : Radio) : Bool :=
  radio.phy == .fsk

def applyMode (radio : Radio) (cfg : PhyConfig) : Radio :=
  { radio with phy := .lora cfg }

def applyRadioFsk (radio : Radio) : Radio :=
  { radio with phy := .fsk }

/-- The wedge recovery configures the chip again as it was. -/
def reinit (radio : Radio) : Radio :=
  if radio.phyFsk then radio.applyRadioFsk else { radio with phy := .lora radio.cfg }

/-- An index outside the table changes nothing. -/
def applyModeByIndex (radio : Radio) (idx : Option Nat) : Bool × Radio :=
  match idx.bind (rfModes[·]?) with
  | none => (false, radio)
  | some mode =>
      if mode.fsk then (true, { radio with cfg := ⟨0, 0, 0⟩ }.applyRadioFsk)
      else
        let cfg : PhyConfig := ⟨mode.sf, mode.bwCode, mode.cr⟩
        (true, { radio with cfg := cfg }.applyMode cfg)

def applyModeByName (radio : Radio) (name : String) : Bool × Radio :=
  radio.applyModeByIndex (modeIndexByName name)

/-- A row of the table that describes the radio as it is. -/
def runs (radio : Radio) (mode : RfMode) : Bool :=
  if mode.fsk then radio.phyFsk
  else !radio.phyFsk && mode.sf == radio.cfg.sf && mode.bwCode == radio.cfg.bwCode &&
    mode.cr == radio.cfg.cr

def currentModeIndex (radio : Radio) : Option Nat :=
  rfModes.findIdx? radio.runs

/-- `Setup` applies the build's mode, loads the saved settings and applies those. -/
def setup (built saved : PhyConfig) : Radio :=
  let started : Radio := { cfg := built, phy := .lora built }
  { started.applyMode built with cfg := saved }.applyMode saved

/-- The chip runs what `cfg` says; in GFSK `cfg` holds zeros. -/
inductive Coherent : Radio → Prop where
  | lora (cfg : PhyConfig) : Coherent { cfg := cfg, phy := .lora cfg }
  | fsk : Coherent { cfg := ⟨0, 0, 0⟩, phy := .fsk }

/-- The radio on one row of the table. -/
def ofMode (mode : RfMode) : Radio :=
  if mode.fsk then { cfg := ⟨0, 0, 0⟩, phy := .fsk }
  else { cfg := ⟨mode.sf, mode.bwCode, mode.cr⟩, phy := .lora ⟨mode.sf, mode.bwCode, mode.cr⟩ }

theorem coherent_setup (built saved : PhyConfig) : (setup built saved).Coherent :=
  .lora saved

theorem coherent_ofMode (mode : RfMode) : (ofMode mode).Coherent := by
  unfold ofMode
  split
  · exact .fsk
  · exact .lora _

variable {radio : Radio}

theorem Coherent.reinit (coherent : radio.Coherent) : radio.reinit = radio := by
  cases coherent with
  | lora cfg => rfl
  | fsk => rfl

theorem applyModeByIndex_ofMode (radio : Radio) {idx : Nat} {mode : RfMode}
    (row : rfModes[idx]? = some mode) :
    radio.applyModeByIndex (some idx) = (true, ofMode mode) := by
  unfold applyModeByIndex ofMode
  rw [Option.bind_some, row]
  dsimp only
  split <;> rfl

theorem applyModeByIndex_outside (radio : Radio) {idx : Nat} (outside : rfModeCount ≤ idx) :
    radio.applyModeByIndex (some idx) = (false, radio) := by
  unfold applyModeByIndex
  rw [Option.bind_some, List.getElem?_eq_none outside]

theorem coherent_applyModeByIndex (coherent : radio.Coherent) (idx : Option Nat) :
    (radio.applyModeByIndex idx).2.Coherent := by
  cases idx with
  | none => exact coherent
  | some idx =>
      by_cases outside : rfModeCount ≤ idx
      · rw [applyModeByIndex_outside radio outside]
        exact coherent
      · have row := List.getElem?_eq_getElem (Nat.lt_of_not_le outside)
        rw [applyModeByIndex_ofMode radio row]
        exact coherent_ofMode _

/-- The table names each of its rows. -/
theorem currentModeIndex_ofMode {idx : Nat} {mode : RfMode} (row : rfModes[idx]? = some mode) :
    (ofMode mode).currentModeIndex = some idx := by
  have all : ∀ entry ∈ rfModes.zipIdx, (ofMode entry.1).currentModeIndex = some entry.2 := by
    decide
  exact all (mode, idx) (List.mem_zipIdx_iff_getElem?.mpr row)

theorem lt_of_currentModeIndex {idx : Nat} (current : radio.currentModeIndex = some idx) :
    idx < rfModeCount :=
  (List.findIdx?_eq_some_iff_getElem.mp current).1

/-- The row that describes a radio determines it. -/
theorem Coherent.eq_ofMode (coherent : radio.Coherent) {mode : RfMode}
    (runs : radio.runs mode) : radio = ofMode mode := by
  cases coherent with
  | fsk =>
      cases isFsk : mode.fsk with
      | true => simp [ofMode, isFsk]
      | false => simp [Radio.runs, isFsk, phyFsk] at runs
  | lora cfg =>
      obtain ⟨sf, bwCode, cr⟩ := cfg
      cases isFsk : mode.fsk with
      | true => simp [Radio.runs, isFsk, phyFsk] at runs
      | false =>
          simp only [Radio.runs, isFsk, phyFsk, Bool.false_eq_true, if_false, Bool.and_eq_true,
            beq_iff_eq] at runs
          obtain ⟨⟨⟨-, sameSf⟩, sameBw⟩, sameCr⟩ := runs
          simp [ofMode, isFsk, sameSf, sameBw, sameCr]

/-- Applying the index a radio reports brings any radio to the same settings. -/
theorem Coherent.restored (coherent : radio.Coherent) {idx : Nat}
    (current : radio.currentModeIndex = some idx) (other : Radio) :
    other.applyModeByIndex (some idx) = (true, radio) := by
  obtain ⟨inside, runs, -⟩ := List.findIdx?_eq_some_iff_getElem.mp current
  have row : rfModes[idx]? = some rfModes[idx] := List.getElem?_eq_getElem inside
  rw [applyModeByIndex_ofMode other row,
    coherent.eq_ofMode runs]

/-- The settings `AT&W` stores on a LoRa preset. -/
def presetConfig (idx : Fin loraModeCount) : PhyConfig :=
  let mode := rfModes.get ⟨idx, Nat.lt_of_lt_of_le idx.isLt (by decide)⟩
  ⟨mode.sf, mode.bwCode, mode.cr⟩

theorem currentModeIndex_setup (built : PhyConfig) (idx : Fin loraModeCount) :
    (setup built (presetConfig idx)).currentModeIndex = some idx.val := by
  have all : ∀ idx : Fin loraModeCount,
      ({ cfg := presetConfig idx, phy := .lora (presetConfig idx) } : Radio).currentModeIndex =
        some idx.val := by
    decide
  exact all idx

theorem Coherent.phy_eq (coherent : radio.Coherent) (lora : radio.phy ≠ .fsk) :
    radio.phy = .lora radio.cfg := by
  cases coherent with
  | lora cfg => rfl
  | fsk => exact absurd rfl lora

/-- What the chip runs determines the radio. -/
theorem Coherent.ext (coherent : radio.Coherent) {other : Radio} (otherCoherent : other.Coherent)
    (same : radio.phy = other.phy) : radio = other := by
  cases coherent with
  | lora cfg =>
      cases otherCoherent with
      | lora otherCfg => cases same; rfl
      | fsk => cases same
  | fsk =>
      cases otherCoherent with
      | lora otherCfg => cases same
      | fsk => rfl

/-- Booting from the settings of a radio on a LoRa preset brings it back. -/
theorem Coherent.setup_cfg (coherent : radio.Coherent) {idx : Nat}
    (current : radio.currentModeIndex = some idx) (lora : idx < loraModeCount)
    (built : PhyConfig) : setup built radio.cfg = radio := by
  cases coherent with
  | lora cfg => rfl
  | fsk =>
      have last : ({ cfg := ⟨0, 0, 0⟩, phy := .fsk } : Radio).currentModeIndex = some 5 := by decide
      obtain rfl : 5 = idx := Option.some.inj (last.symm.trans current)
      exact absurd lora (by decide)

/-- An index of the table is reported after it is applied. -/
theorem currentModeIndex_applied (radio : Radio) {idx : Nat} (inside : idx < rfModeCount) :
    (radio.applyModeByIndex (some idx)).2.currentModeIndex = some idx := by
  have row := List.getElem?_eq_getElem inside
  rw [applyModeByIndex_ofMode radio row]
  exact currentModeIndex_ofMode row

end Radio

/-! ### Timing -/

/-- What `DeriveTiming` leaves for the link. -/
structure Timing where
  window : UInt8
  retransmitMs : UInt32
deriving DecidableEq, Repr

/-- `timeOnAir` is RadioLib's report in microseconds for a full frame. -/
def deriveTiming (timeOnAir : UInt32) : Timing :=
  let toa := if timeOnAir / 1000 < 5 then 5 else timeOnAir / 1000
  let frames := 1500 / (if toa ≠ 0 then toa else 1)
  let frames := if frames < 2 then 2 else frames
  let frames := if 16 < frames then 16 else frames
  let window := frames.toUInt8
  { window := window
    retransmitMs := (window.toUInt32 + 2) * toa * 140 / 100 + 400 }

/-- Nothing in the retransmit timeout overflows. -/
theorem retransmitMs_lt_of_window {toa : UInt32} {window : UInt8} (most : toa.toNat ≤ 4294967)
    (small : window.toNat ≤ 16) (budget : window.toNat * toa.toNat ≤ 1500 + 2 * toa.toNat) :
    ((window.toUInt32 + 2) * toa * 140 / 100 + 400).toNat < 2 ^ 25 := by
  have two : (2 : UInt32).toNat = 2 := rfl
  have scale : (140 : UInt32).toNat = 140 := rfl
  have percent : (100 : UInt32).toNat = 100 := rfl
  have margin : (400 : UInt32).toNat = 400 := rfl
  have count : (window.toNat + 2) % 2 ^ 32 = window.toNat + 2 := Nat.mod_eq_of_lt (by omega)
  have frames : ((window.toUInt32 + 2) * toa).toNat = window.toNat * toa.toNat + 2 * toa.toNat := by
    rw [UInt32.toNat_mul, UInt32.toNat_add, UInt8.toNat_toUInt32, two, count, Nat.add_mul,
      Nat.mod_eq_of_lt (by omega)]
  rw [UInt32.toNat_add, UInt32.toNat_div, UInt32.toNat_mul, frames, scale, percent, margin]
  have airtime : window.toNat * toa.toNat + 2 * toa.toNat ≤ 17181368 := by omega
  generalize window.toNat * toa.toNat + 2 * toa.toNat = burst at *
  rw [Nat.mod_eq_of_lt (by omega : burst * 140 < 2 ^ 32)]
  have quotient : burst * 140 / 100 ≤ 24053915 := by omega
  generalize burst * 140 / 100 = scaled at *
  rw [Nat.mod_eq_of_lt (by omega)]
  omega

/-- The time on air of a full frame, in milliseconds. -/
def toaMs (timeOnAir : UInt32) : UInt32 :=
  if timeOnAir / 1000 < 5 then 5 else timeOnAir / 1000

theorem toaMs_bounds (timeOnAir : UInt32) :
    5 ≤ (toaMs timeOnAir).toNat ∧ (toaMs timeOnAir).toNat ≤ 4294967 := by
  have micros := timeOnAir.toNat_lt
  have thousand : (1000 : UInt32).toNat = 1000 := rfl
  have five : (5 : UInt32).toNat = 5 := rfl
  unfold toaMs
  split
  · exact ⟨by decide, by decide⟩
  next above =>
    rw [UInt32.lt_iff_toNat_lt, UInt32.toNat_div, thousand, five] at above
    rw [UInt32.toNat_div, thousand]
    omega

/-- As many full frames as fit in the budgeted airtime, between 2 and 16. -/
theorem window_toNat (timeOnAir : UInt32) :
    (deriveTiming timeOnAir).window.toNat = min 16 (max 2 (1500 / (toaMs timeOnAir).toNat)) := by
  have positive := (toaMs_bounds timeOnAir).1
  have nonzero : toaMs timeOnAir ≠ 0 := by
    intro zero
    rw [zero] at positive
    exact absurd positive (by decide)
  have frames : (1500 / (if toaMs timeOnAir ≠ 0 then toaMs timeOnAir else 1)).toNat =
      1500 / (toaMs timeOnAir).toNat := by
    rw [if_pos nonzero, UInt32.toNat_div]
    rfl
  change (let frames := 1500 / (if toaMs timeOnAir ≠ 0 then toaMs timeOnAir else 1)
    let frames := if frames < 2 then 2 else frames
    let frames := if 16 < frames then 16 else frames
    frames.toUInt8 : UInt8).toNat = _
  generalize (1500 / (if toaMs timeOnAir ≠ 0 then toaMs timeOnAir else 1) : UInt32) = budgeted
    at frames
  dsimp only
  rw [UInt32.toNat_toUInt8, ← frames, apply_ite UInt32.toNat, apply_ite UInt32.toNat]
  simp only [UInt32.lt_iff_toNat_lt, apply_ite UInt32.toNat]
  change (if 16 < (if budgeted.toNat < 2 then 2 else budgeted.toNat) then 16
    else if budgeted.toNat < 2 then 2 else budgeted.toNat) % 2 ^ 8 = _
  split <;> split at * <;> omega

theorem retransmitMs_lt (timeOnAir : UInt32) :
    (deriveTiming timeOnAir).retransmitMs.toNat < 2 ^ 25 := by
  have most := (toaMs_bounds timeOnAir).2
  have clamped := window_toNat timeOnAir
  have small : (deriveTiming timeOnAir).window.toNat ≤ 16 := by omega
  have fits := Nat.div_mul_le_self 1500 (toaMs timeOnAir).toNat
  -- Clamping keeps the burst within the budget or at two frames.
  have budget : (deriveTiming timeOnAir).window.toNat * (toaMs timeOnAir).toNat ≤
      1500 + 2 * (toaMs timeOnAir).toNat := by
    rw [clamped]
    rcases Nat.le_total (1500 / (toaMs timeOnAir).toNat) 2 with narrow | wide
    · rw [Nat.max_eq_left narrow]
      exact Nat.le_add_left _ _
    · rw [Nat.max_eq_right wide]
      have fewer := Nat.mul_le_mul_right (toaMs timeOnAir).toNat
        (Nat.min_le_right 16 (1500 / (toaMs timeOnAir).toNat))
      omega
  exact retransmitMs_lt_of_window most small budget

/-- How far the silence has grown after some time more. -/
theorem silence_toNat (now lastRx : UInt32) (elapsed : Nat) :
    (now + UInt32.ofNat elapsed - lastRx).toNat = ((now - lastRx).toNat + elapsed) % 2 ^ 32 := by
  have regroup : now + UInt32.ofNat elapsed - lastRx = (now - lastRx) + UInt32.ofNat elapsed := by
    rw [UInt32.sub_eq_add_neg, UInt32.sub_eq_add_neg, UInt32.add_assoc, UInt32.add_assoc,
      UInt32.add_comm (UInt32.ofNat elapsed)]
  rw [regroup, UInt32.toNat_add, UInt32.toNat_ofNat']
  omega

end LoraSerial.Device
