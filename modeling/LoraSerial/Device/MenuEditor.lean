import LoraSerial.Device.ConfigMenu
import LoraSerial.Device.Settings

/-!
Owns the config menu as its user works it: the button, the trackball, the draft of the value
that is edited, and the hand-over from `ConfirmEdit` to `ServiceConfig`. Proves that what is
applied is in its range, and that a reboot finds the brightness and the region that are shown.
A step of a frequency is any function. Does not own the drawing, nor what the trackball does on
the other screens.
-/

namespace LoraSerial.Device

open Library.Run

/-! ### Items and drafts -/

inductive Screen where
  | main | info | config
deriving DecidableEq, Repr

def Screen.next : Screen → Screen
  | .main => .info
  | .info => .config
  | .config => .main

def numBright : Int := 3
def numRegions : Int := 3
def itemCount : Int := 12
def pwrMinDbm : Int := -9
def pwrMaxDbm : Int := 22
def bufKeepMinKb : Int := 1
def bufKeepMaxKb : Int := 64
def btnDebounce : UInt32 := 30
def pressGuardMs : UInt32 := 180

namespace ConfigItem

/-- The rows of the menu, from the top. -/
def rows : List ConfigItem :=
  [.bright, .region, .freq, .mode, .power, .autoPwr, .enc, .comp, .fs, .gfsk, .bufMode, .bufKeep]

/-- The row above or below, around the ends. -/
def move (item : ConfigItem) (dir : Int) : ConfigItem :=
  rows.getD ((rows.idxOf item + dir + itemCount).tmod itemCount).toNat .bright

/-- The bit of the row that `FeatFor` finds. -/
def feature : ConfigItem → Option Feature
  | .autoPwr => some .apwr
  | .enc => some .enc
  | .comp => some .comp
  | .fs => some .fs
  | .gfsk => some .gfsk
  | .bright | .region | .freq | .mode | .power | .bufMode | .bufKeep => none

end ConfigItem

/-- `kRegions[idx]`; there is nothing past its end. -/
def regionAt (idx : Int) : Option RegionId :=
  [RegionId.tw, .us, .eu][idx.toNat]?

/-- The two comparisons of `EditStep`. -/
def clampInt (lo hi v : Int) : Int :=
  let v := if v < lo then lo else v
  if hi < v then hi else v

def clampFreq (row : Region) (f : UInt32) : UInt32 :=
  let f := if floatLt f row.min then row.min else f
  if floatLt row.max f then row.max else f

/-- Where `ConfirmEdit` stands. -/
inductive ConfirmStage where
  | idle | stashing | raising
deriving DecidableEq, Repr

/-- What the two tasks share, and what it goes through to: the settings of the board and the
menu's two entries in flash. While `applying`, the main loop has cleared the flag and has yet
to read the rest. -/
structure MenuShared where
  modem : Modem
  bri : Option UInt8
  rgn : Option UInt8
  bright : UInt8
  region : UInt8
  confirming : ConfirmStage
  applyItem : ConfigItem
  applyIval : Int
  applyFval : UInt32
  applyPending : Bool
  applying : Bool

/-- `shown` is the level `SetBrightness` was last given. -/
structure MenuPanel extends MenuShared where
  screen : Screen
  sel : ConfigItem
  editing : Bool
  draftI : Int
  draftF : UInt32
  shown : UInt8
  btnStable : Bool
  btnLast : Bool
  btnChangedMs : UInt32
  prsLastMs : UInt32

/-- What happens on the two tasks. `settings` is anything else that changes a setting. -/
inductive PanelAction where
  | button (raw : Bool) (now : UInt32)
  | rolled (up down left right : Nat)
  | pressed (now : UInt32)
  | stashed
  | raised
  | cleared
  | applied
  | settings (event : SettingsEvent)
  | reboot

namespace MenuPanel

/-! ### The display task -/

/-- `bright_` after `Init`. -/
def initBright (bri : Option UInt8) : UInt8 :=
  let stored := bri.getD 1
  if stored < 3 then stored else 1

def initRegion (rgn : Option UInt8) : UInt8 :=
  let stored := rgn.getD 0
  if stored < 3 then stored else 0

def init (modem : Modem) (bri rgn : Option UInt8) : MenuPanel where
  modem := modem
  bri := bri
  rgn := rgn
  screen := .main
  sel := .bright
  editing := false
  draftI := 0
  draftF := 0
  bright := initBright bri
  region := initRegion rgn
  shown := initBright bri
  btnStable := true
  btnLast := true
  btnChangedMs := 0
  prsLastMs := 0
  confirming := .idle
  applyItem := .bright
  applyIval := 0
  applyFval := 0
  applyPending := false
  applying := false

/-- The integer that `EnterEdit` drafts. -/
def seed (panel : MenuPanel) : Int :=
  let cfg := panel.modem.cfg
  match panel.sel.feature with
  | some feature => if cfg.link.feat &&& feature.bit ≠ 0 then 1 else 0
  | none =>
      match panel.sel with
      | .bright => panel.bright.toNat
      | .region => panel.region.toNat
      | .mode => (panel.modem.radio.currentModeIndex.getD 0 : Nat)
      | .power => panel.modem.txPower.toInt
      | .bufMode => if cfg.bufmode = bufmodeKeeplatest then 1 else 0
      | .bufKeep => clampInt bufKeepMinKb bufKeepMaxKb (cfg.bufkeep / 1024).toNat
      | _ => panel.draftI

def enterEdit (panel : MenuPanel) : MenuPanel :=
  { panel with
    draftI := panel.seed
    draftF := if panel.sel = .freq then panel.modem.cfg.freq else panel.draftF
    editing := true }

/-- The value of a float draft changes by a rounded sum, `addStep`. -/
def editStep (addStep : UInt32 → Int → UInt32) (panel : MenuPanel) (dir : Int) : MenuPanel :=
  match panel.sel with
  | .bright =>
      let v := clampInt 0 (numBright - 1) (panel.draftI + dir)
      { panel with draftI := v, shown := .ofInt v }
  | .region => { panel with draftI := (panel.draftI + dir + numRegions).tmod numRegions }
  | .freq =>
      match regionAt panel.region.toNat with
      | some region =>
          { panel with draftF := clampFreq (regions region) (addStep panel.draftF dir) }
      | none => panel
  | .mode => { panel with draftI := (panel.draftI + dir + rfModeCount).tmod rfModeCount }
  | .power => { panel with draftI := clampInt pwrMinDbm pwrMaxDbm (panel.draftI + dir) }
  | .bufKeep => { panel with draftI := clampInt bufKeepMinKb bufKeepMaxKb (panel.draftI + dir) }
  | .autoPwr | .enc | .comp | .fs | .gfsk | .bufMode =>
      { panel with draftI := if panel.draftI = 0 then 1 else 0 }

def cancelEdit (panel : MenuPanel) : MenuPanel :=
  { panel with
    shown := if panel.sel = .bright then panel.bright else panel.shown
    editing := false }

/-- `ConfirmEdit` stores the item first. -/
def confirmEdit (panel : MenuPanel) : MenuPanel :=
  { panel with applyItem := panel.sel, confirming := .stashing }

/-- Then the value, -/
def stash (panel : MenuPanel) : MenuPanel :=
  match panel.sel with
  | .bright =>
      let bright : UInt8 := .ofInt panel.draftI
      { panel with
        bright := bright
        shown := bright
        applyIval := bright.toNat
        confirming := .raising }
  | .region =>
      let region : UInt8 := .ofInt panel.draftI
      { panel with region := region, applyIval := region.toNat, confirming := .raising }
  | .freq => { panel with applyFval := panel.draftF, confirming := .raising }
  | _ => { panel with applyIval := panel.draftI, confirming := .raising }

/-- and raises the flag last. -/
def raise (panel : MenuPanel) : MenuPanel :=
  { panel with applyPending := true, editing := false, confirming := .idle }

/-- The button is back and escape. -/
def back (panel : MenuPanel) : MenuPanel :=
  if panel.screen = .config ∧ panel.editing = true then panel.cancelEdit
  else { panel with screen := panel.screen.next, editing := false }

/-- A pressed button reads low. -/
def pollButton (panel : MenuPanel) (raw : Bool) (now : UInt32) : MenuPanel :=
  let changedMs := if raw ≠ panel.btnLast then now else panel.btnChangedMs
  let seen := { panel with btnLast := raw, btnChangedMs := changedMs }
  if btnDebounce < now - changedMs ∧ raw ≠ panel.btnStable then
    let stable := { seen with btnStable := raw }
    if raw then stable else stable.back
  else seen

def pollTrackball (addStep : UInt32 → Int → UInt32) (panel : MenuPanel)
    (up down left right : Nat) : MenuPanel :=
  if panel.screen ≠ .config then panel
  else if panel.editing then
    if left < right then panel.editStep addStep 1
    else if right < left then panel.editStep addStep (-1)
    else panel
  else if up < down then { panel with sel := panel.sel.move 1 }
  else if down < up then { panel with sel := panel.sel.move (-1) }
  else panel

def pollPress (panel : MenuPanel) (now : UInt32) : MenuPanel :=
  if now - panel.prsLastMs < pressGuardMs then panel
  else
    let accepted := { panel with prsLastMs := now }
    if panel.screen = .config then
      if panel.editing then accepted.confirmEdit else accepted.enterEdit
    else accepted

/-! ### The main loop -/

/-- The setting that the stash asks for; the brightness is none. -/
def confirmedItem (panel : MenuPanel) : Option MenuItem :=
  match panel.applyItem.feature with
  | some feature => some (.feature feature (panel.applyIval ≠ 0))
  | none =>
      match panel.applyItem with
      | .region => (regionAt panel.applyIval).map .region
      | .freq => some (.freq panel.applyFval)
      | .mode => if panel.applyIval < 0 then none else some (.mode panel.applyIval.toNat)
      | .power => some (.power panel.applyIval)
      | .bufMode => some (.bufmode (panel.applyIval ≠ 0))
      | .bufKeep => some (.bufkeep (.ofInt panel.applyIval))
      | _ => none

def applyStash (panel : MenuPanel) : MenuPanel :=
  { panel with
    modem := panel.confirmedItem.elim panel.modem panel.modem.serviceConfig
    bri := if panel.applyItem = .bright then some (.ofInt panel.applyIval) else panel.bri
    rgn := if panel.applyItem = .region then some (.ofInt panel.applyIval) else panel.rgn
    applying := false }

/-- A factory reset clears the menu's entries as well. The menu and the reboot are actions of
their own. -/
def settings (build : Build) (panel : MenuPanel) : SettingsEvent → MenuPanel
  | .menu _ | .reboot => panel
  | .at .factoryReset =>
      { panel with modem := panel.modem.factoryReset build, bri := none, rgn := none }
  | event => { panel with modem := panel.modem.step build event }

/-- The display task does nothing else inside `ConfirmEdit`, nor the main loop inside
`ServiceConfig`. -/
def step (addStep : UInt32 → Int → UInt32) (build : Build) (panel : MenuPanel) :
    PanelAction → MenuPanel
  | .button raw now =>
      if panel.confirming = .idle then panel.pollButton raw now else panel
  | .rolled up down left right =>
      if panel.confirming = .idle then panel.pollTrackball addStep up down left right else panel
  | .pressed now => if panel.confirming = .idle then panel.pollPress now else panel
  | .stashed => if panel.confirming = .stashing then panel.stash else panel
  | .raised => if panel.confirming = .raising then panel.raise else panel
  | .cleared =>
      if panel.applyPending then { panel with applyPending := false, applying := true } else panel
  | .applied => if panel.applying then panel.applyStash else panel
  | .settings event => if panel.applying then panel else panel.settings build event
  | .reboot => init (panel.modem.reboot build) panel.bri panel.rgn

def run (addStep : UInt32 → Int → UInt32) (build : Build) (panel : MenuPanel)
    (actions : List PanelAction) : MenuPanel :=
  actions.foldl (step addStep build) panel

/-- An edit is confirmed once the one before it has been applied. -/
def Drained (panel : MenuPanel) : PanelAction → Prop
  | .pressed now => panel.editing = true → ¬now - panel.prsLastMs < pressGuardMs →
      panel.applyPending = false ∧ panel.applying = false
  | _ => True

instance (panel : MenuPanel) : (action : PanelAction) → Decidable (Drained panel action)
  | .pressed now =>
      inferInstanceAs (Decidable (panel.editing = true →
        ¬now - panel.prsLastMs < pressGuardMs →
          panel.applyPending = false ∧ panel.applying = false))
  | .button _ _ | .rolled _ _ _ _ | .stashed | .raised | .cleared | .applied | .settings _
  | .reboot => inferInstanceAs (Decidable True)

/-! ### Ranges -/

end MenuPanel

/-- What may be drafted for an item. A frequency has a draft of its own. -/
def ConfigItem.Allows : ConfigItem → Int → Prop
  | .bright, v => 0 ≤ v ∧ v < numBright
  | .region, v => 0 ≤ v ∧ v < numRegions
  | .freq, _ => True
  | .mode, v => 0 ≤ v ∧ v < rfModeCount
  | .power, v => -128 ≤ v ∧ v < 128
  | .bufKeep, v => bufKeepMinKb ≤ v ∧ v ≤ bufKeepMaxKb
  | .autoPwr, v | .enc, v | .comp, v | .fs, v | .gfsk, v | .bufMode, v => v = 0 ∨ v = 1

/-- A mode of the table, a power that `int8_t` holds, a window of the menu. -/
def MenuItem.InRange : MenuItem → Prop
  | .mode idx => idx < rfModeCount
  | .power value => -128 ≤ value ∧ value < 128
  | .bufkeep kib => bufKeepMinKb ≤ kib.toNat ∧ kib.toNat ≤ bufKeepMaxKb
  | .feature _ _ | .region _ | .freq _ | .bufmode _ => True

theorem clampInt_range {lo hi : Int} (ordered : lo ≤ hi) (v : Int) :
    lo ≤ clampInt lo hi v ∧ clampInt lo hi v ≤ hi := by
  unfold clampInt
  dsimp only
  split <;> split <;> omega

theorem wrap_range {n v : Int} (pos : 0 < n) (nonneg : 0 ≤ v) : 0 ≤ v.tmod n ∧ v.tmod n < n :=
  ⟨Int.tmod_nonneg n nonneg, Int.tmod_lt_of_pos v pos⟩

namespace MenuPanel

theorem initBright_lt (bri : Option UInt8) : initBright bri < 3 := by
  unfold initBright
  dsimp only
  split
  next small => exact small
  · decide

theorem initRegion_lt (rgn : Option UInt8) : initRegion rgn < 3 := by
  unfold initRegion
  dsimp only
  split
  next small => exact small
  · decide

variable {panel : MenuPanel}

/-- An edit starts in the range of its item. -/
theorem seed_allows (bright : panel.bright < 3) (region : panel.region < 3) :
    panel.sel.Allows panel.seed := by
  have flag : ∀ on : Prop, ∀ [Decidable on], (if on then (1 : Int) else 0) = 0 ∨
      (if on then (1 : Int) else 0) = 1 := by
    intro on _
    split
    · exact Or.inr rfl
    · exact Or.inl rfl
  cases item : panel.sel with
  | bright =>
      have below : panel.bright.toNat < 3 := UInt8.lt_iff_toNat_lt.mp bright
      simp only [ConfigItem.Allows, seed, item, ConfigItem.feature, numBright]
      omega
  | region =>
      have below : panel.region.toNat < 3 := UInt8.lt_iff_toNat_lt.mp region
      simp only [ConfigItem.Allows, seed, item, ConfigItem.feature, numRegions]
      omega
  | freq => trivial
  | mode =>
      simp only [ConfigItem.Allows, seed, item, ConfigItem.feature]
      cases current : panel.modem.radio.currentModeIndex with
      | none => decide
      | some idx =>
          have inside := Radio.lt_of_currentModeIndex current
          exact ⟨Int.natCast_nonneg idx, Int.ofNat_lt.mpr inside⟩
  | power =>
      simp only [ConfigItem.Allows, seed, item, ConfigItem.feature]
      exact ⟨panel.modem.txPower.le_toInt, panel.modem.txPower.toInt_lt⟩
  | bufKeep =>
      simp only [ConfigItem.Allows, seed, item, ConfigItem.feature]
      exact clampInt_range (by decide) _
  | autoPwr | enc | comp | fs | gfsk | bufMode =>
      simp only [ConfigItem.Allows, seed, item, ConfigItem.feature]
      exact flag _

/-- An edit changes the draft within its range, and shows a brightness at once. -/
theorem editStep_spec (addStep : UInt32 → Int → UInt32) (panel : MenuPanel) {dir : Int}
    (notch : -1 ≤ dir) :
    ∃ draftI draftF, panel.editStep addStep dir =
        { panel with
          draftI := draftI
          draftF := draftF
          shown := if panel.sel = .bright then .ofInt draftI else panel.shown } ∧
      (panel.sel.Allows panel.draftI → panel.sel.Allows draftI) := by
  cases item : panel.sel with
  | bright =>
      refine ⟨_, panel.draftF, by simp only [editStep, item, if_true]; rfl, fun _ => ?_⟩
      have range := clampInt_range (by decide : (0 : Int) ≤ numBright - 1) (panel.draftI + dir)
      exact ⟨range.1, Int.lt_of_le_sub_one range.2⟩
  | region =>
      refine ⟨_, panel.draftF, by simp only [editStep, item]; rfl, fun ⟨nonneg, below⟩ => ?_⟩
      exact wrap_range (by decide) (by simp only [numRegions]; omega)
  | freq =>
      cases found : regionAt panel.region.toNat with
      | none =>
          refine ⟨panel.draftI, panel.draftF, ?_, id⟩
          simp only [editStep, item, found]
          cases panel
          cases item
          rfl
      | some region =>
          exact ⟨panel.draftI, _, by simp only [editStep, item, found]; rfl, id⟩
  | mode =>
      refine ⟨_, panel.draftF, by simp only [editStep, item]; rfl, fun ⟨nonneg, below⟩ => ?_⟩
      have many : (1 : Int) ≤ rfModeCount := by decide
      exact wrap_range (by omega) (by omega)
  | power =>
      refine ⟨_, panel.draftF, by simp only [editStep, item]; rfl, fun _ => ?_⟩
      have range := clampInt_range (by decide : pwrMinDbm ≤ pwrMaxDbm) (panel.draftI + dir)
      simp only [pwrMinDbm, pwrMaxDbm] at range
      simp only [ConfigItem.Allows, pwrMinDbm, pwrMaxDbm]
      omega
  | bufKeep =>
      refine ⟨_, panel.draftF, by simp only [editStep, item]; rfl, fun _ => ?_⟩
      exact clampInt_range (by decide) _
  | autoPwr | enc | comp | fs | gfsk | bufMode =>
      refine ⟨_, panel.draftF, by simp only [editStep, item]; rfl, fun _ => ?_⟩
      dsimp only [ConfigItem.Allows]
      split
      · exact Or.inr rfl
      · exact Or.inl rfl

/-- A poll of the button notes its level and the time, and may act on a press. -/
theorem pollButton_cases (panel : MenuPanel) (raw : Bool) (now : UInt32) :
    ∃ last changedMs stable,
      panel.pollButton raw now = { panel with
        btnLast := last, btnChangedMs := changedMs, btnStable := stable } ∨
      panel.pollButton raw now = MenuPanel.back { panel with
        btnLast := last, btnChangedMs := changedMs, btnStable := stable } := by
  unfold pollButton
  dsimp only
  generalize (if raw ≠ panel.btnLast then now else panel.btnChangedMs) = changedMs
  split
  · cases raw with
    | true => exact ⟨true, changedMs, true, Or.inl rfl⟩
    | false => exact ⟨false, changedMs, false, Or.inr rfl⟩
  · exact ⟨raw, changedMs, panel.btnStable, Or.inl rfl⟩

/-! ### What the menu shows -/

/-- Every index the menu draws from is in its table, and the brightness is the draft of an edit
of the brightness, else the chosen one. -/
structure Sound (panel : MenuPanel) : Prop where
  onConfig : panel.editing = true → panel.screen = .config
  confirms : panel.confirming ≠ .idle → panel.editing = true
  bright : panel.bright < 3
  region : panel.region < 3
  draft : panel.editing = true → panel.sel.Allows panel.draftI
  shown : panel.shown =
    if panel.editing = true ∧ panel.sel = .bright then .ofInt panel.draftI else panel.bright
  raising : panel.confirming = .raising → panel.shown = panel.bright

theorem ofInt_toNat (v : UInt8) : UInt8.ofInt v.toNat = v := by
  have small := v.toNat_lt
  apply UInt8.toNat_inj.mp
  simp only [UInt8.ofInt, UInt8.toNat_ofNat']
  omega

theorem ofInt_seed (item : panel.sel = .bright) : UInt8.ofInt panel.seed = panel.bright := by
  simp only [seed, item, ConfigItem.feature]
  exact ofInt_toNat panel.bright

/-- A chosen index fits its byte. -/
theorem ofInt_lt {v : Int} (nonneg : 0 ≤ v) (below : v < 3) :
    UInt8.ofInt v < 3 ∧ ((UInt8.ofInt v).toNat : Int) = v := by
  have few : v = 0 ∨ v = 1 ∨ v = 2 := by omega
  rcases few with rfl | rfl | rfl <;> decide

namespace Sound

/-! The display task keeps it; the main loop has no part in it. -/

theorem init (modem : Modem) (bri rgn : Option UInt8) : (init modem bri rgn).Sound where
  onConfig off := absurd off Bool.false_ne_true
  confirms off := absurd rfl off
  bright := initBright_lt bri
  region := initRegion_lt rgn
  draft off := absurd off Bool.false_ne_true
  shown := rfl
  raising := nofun

theorem cancelEdit (sound : panel.Sound) (idle : panel.confirming = .idle) :
    panel.cancelEdit.Sound where
  onConfig off := absurd off Bool.false_ne_true
  confirms off := absurd idle off
  bright := sound.bright
  region := sound.region
  draft off := absurd off Bool.false_ne_true
  shown := by
    have shown := sound.shown
    simp only [MenuPanel.cancelEdit]
    by_cases item : panel.sel = .bright
    · simp [item]
    · simpa [item] using shown
  raising off := nomatch idle.symm.trans off

theorem back (sound : panel.Sound) (idle : panel.confirming = .idle) : panel.back.Sound := by
  unfold MenuPanel.back
  split
  · exact sound.cancelEdit idle
  next plain =>
    have resting : panel.editing = false :=
      Bool.eq_false_iff.mpr fun editing => plain ⟨sound.onConfig editing, editing⟩
    exact {
      onConfig := fun off => absurd off Bool.false_ne_true
      confirms := fun off => absurd idle off
      bright := sound.bright
      region := sound.region
      draft := fun off => absurd off Bool.false_ne_true
      shown := by simpa [resting] using sound.shown
      raising := fun off => nomatch idle.symm.trans off }

theorem pollButton (sound : panel.Sound) (idle : panel.confirming = .idle) (raw : Bool)
    (now : UInt32) : (panel.pollButton raw now).Sound := by
  have timed : ∀ last changedMs stable, MenuPanel.Sound { panel with
      btnLast := last, btnChangedMs := changedMs, btnStable := stable } :=
    fun _ _ _ => ⟨sound.onConfig, sound.confirms, sound.bright, sound.region, sound.draft,
      sound.shown, sound.raising⟩
  rcases panel.pollButton_cases raw now with ⟨last, changedMs, stable, polled | polled⟩
  · rw [polled]
    exact timed last changedMs stable
  · rw [polled]
    exact (timed last changedMs stable).back idle

theorem editStep (sound : panel.Sound) (editing : panel.editing = true)
    (idle : panel.confirming = .idle) (addStep : UInt32 → Int → UInt32) {dir : Int}
    (notch : -1 ≤ dir) :
    (panel.editStep addStep dir).Sound := by
  rcases editStep_spec addStep panel notch with ⟨draftI, draftF, stepped, allowed⟩
  rw [stepped]
  exact {
    onConfig := sound.onConfig
    confirms := sound.confirms
    bright := sound.bright
    region := sound.region
    draft := fun editing => allowed (sound.draft editing)
    shown := by
      have shown := sound.shown
      by_cases item : panel.sel = .bright
      · simp [item, editing]
      · simpa [item] using shown
    raising := fun off => nomatch idle.symm.trans off }

theorem pollTrackball (sound : panel.Sound) (addStep : UInt32 → Int → UInt32)
    (idle : panel.confirming = .idle) (up down left right : Nat) :
    (panel.pollTrackball addStep up down left right).Sound := by
  have moved : panel.editing = false → ∀ sel, MenuPanel.Sound { panel with sel := sel } :=
    fun resting sel => {
      onConfig := sound.onConfig
      confirms := sound.confirms
      bright := sound.bright
      region := sound.region
      draft := fun editing => absurd (resting.symm.trans editing) Bool.false_ne_true
      shown := by simpa [resting] using sound.shown
      raising := fun off => nomatch idle.symm.trans off }
  unfold MenuPanel.pollTrackball
  split
  · exact sound
  · split
    next editing =>
      split
      · exact sound.editStep editing idle addStep (by decide)
      · split
        · exact sound.editStep editing idle addStep (by decide)
        · exact sound
    next resting =>
      have resting : panel.editing = false := Bool.not_eq_true _ ▸ resting
      split
      · exact moved resting _
      · split
        · exact moved resting _
        · exact sound

theorem enterEdit (sound : panel.Sound) (onConfig : panel.screen = .config)
    (resting : panel.editing = false) (idle : panel.confirming = .idle) :
    panel.enterEdit.Sound where
  onConfig _ := onConfig
  confirms _ := rfl
  bright := sound.bright
  region := sound.region
  draft _ := seed_allows sound.bright sound.region
  shown := by
    have shown : panel.shown = panel.bright := by simpa [resting] using sound.shown
    simp only [MenuPanel.enterEdit, true_and, shown]
    split
    next item => exact (ofInt_seed item).symm
    · rfl
  raising off := nomatch idle.symm.trans off

theorem confirmEdit (sound : panel.Sound) (editing : panel.editing = true) :
    panel.confirmEdit.Sound :=
  { sound with confirms := fun _ => editing, raising := nofun }

theorem pollPress (sound : panel.Sound) (idle : panel.confirming = .idle) (now : UInt32) :
    (panel.pollPress now).Sound := by
  have timed : MenuPanel.Sound { panel with prsLastMs := now } :=
    ⟨sound.onConfig, sound.confirms, sound.bright, sound.region, sound.draft, sound.shown,
      sound.raising⟩
  unfold MenuPanel.pollPress
  split
  · exact sound
  · dsimp only
    split
    next onConfig =>
      split
      next editing => exact timed.confirmEdit editing
      next resting => exact timed.enterEdit onConfig (Bool.not_eq_true _ ▸ resting) idle
    · exact timed

theorem stash (sound : panel.Sound) (stashing : panel.confirming = .stashing) :
    panel.stash.Sound := by
  have editing : panel.editing = true := sound.confirms (by simp [stashing])
  have allowed := sound.draft editing
  have shown := sound.shown
  unfold MenuPanel.stash
  cases item : panel.sel with
  | bright =>
      rw [item] at allowed
      exact {
        onConfig := sound.onConfig
        confirms := fun _ => editing
        bright := (ofInt_lt allowed.1 allowed.2).1
        region := sound.region
        draft := fun _ => allowed
        shown := by simp [editing]
        raising := fun _ => rfl }
  | region =>
      rw [item] at allowed
      exact {
        onConfig := sound.onConfig
        confirms := fun _ => editing
        bright := sound.bright
        region := (ofInt_lt allowed.1 allowed.2).1
        draft := fun _ => allowed
        shown := by simpa [item] using shown
        raising := fun _ => by simpa [item] using shown }
  | freq | mode | power | autoPwr | enc | comp | fs | gfsk | bufMode | bufKeep =>
      rw [item] at allowed
      exact {
        onConfig := sound.onConfig
        confirms := fun _ => editing
        bright := sound.bright
        region := sound.region
        draft := fun _ => allowed
        shown := by simpa [item] using shown
        raising := fun _ => by simpa [item] using shown }

/-- The value is confirmed when the flag is raised. -/
theorem raise (sound : panel.Sound) (raising : panel.confirming = .raising) :
    panel.raise.Sound where
  onConfig off := absurd off Bool.false_ne_true
  confirms off := absurd rfl off
  bright := sound.bright
  region := sound.region
  draft off := absurd off Bool.false_ne_true
  shown := by simpa [MenuPanel.raise] using sound.raising raising
  raising := nofun

/-- What the main loop writes is not on the display. -/
theorem looped (sound : panel.Sound) (modem : Modem) (bri rgn : Option UInt8)
    (applyPending applying : Bool) :
    MenuPanel.Sound { panel with
      modem := modem
      bri := bri
      rgn := rgn
      applyPending := applyPending
      applying := applying } :=
  ⟨sound.onConfig, sound.confirms, sound.bright, sound.region, sound.draft, sound.shown,
    sound.raising⟩

end Sound

/-- Another change of the settings leaves the display alone, and but for a factory reset the
entries in flash. -/
theorem settings_cases (build : Build) (panel : MenuPanel) (event : SettingsEvent) :
    panel.settings build event = panel ∨
    (∀ item, event ≠ .menu item) ∧
      (panel.settings build event = { panel with modem := panel.modem.step build event } ∨
        event = .at .factoryReset ∧
          panel.settings build event =
            { panel with modem := panel.modem.step build event, bri := none, rgn := none }) := by
  cases event with
  | menu | reboot => exact Or.inl rfl
  | «at» command =>
      refine Or.inr ⟨nofun, ?_⟩
      cases command with
      | factoryReset => exact Or.inr ⟨rfl, rfl⟩
      | _ => exact Or.inl rfl
  | _ => exact Or.inr ⟨nofun, Or.inl rfl⟩

theorem Sound.step (sound : panel.Sound) (addStep : UInt32 → Int → UInt32) (build : Build)
    (action : PanelAction) : (panel.step addStep build action).Sound := by
  cases action with
  | button raw now =>
      rw [MenuPanel.step]
      split
      next idle => exact sound.pollButton idle raw now
      · exact sound
  | rolled up down left right =>
      rw [MenuPanel.step]
      split
      next idle => exact sound.pollTrackball addStep idle up down left right
      · exact sound
  | pressed now =>
      rw [MenuPanel.step]
      split
      next idle => exact sound.pollPress idle now
      · exact sound
  | stashed =>
      rw [MenuPanel.step]
      split
      next stashing => exact sound.stash stashing
      · exact sound
  | raised =>
      rw [MenuPanel.step]
      split
      next raising => exact sound.raise raising
      · exact sound
  | cleared =>
      rw [MenuPanel.step]
      split
      · exact sound.looped _ _ _ false true
      · exact sound
  | applied =>
      rw [MenuPanel.step]
      split
      · exact sound.looped _ _ _ _ false
      · exact sound
  | settings event =>
      rw [MenuPanel.step]
      split
      · exact sound
      · rcases settings_cases build panel event with same | ⟨-, same | ⟨-, same⟩⟩
        · rw [same]
          exact sound
        · rw [same]
          exact sound.looped _ _ _ _ _
        · rw [same]
          exact sound.looped _ _ _ _ _
  | reboot => exact Sound.init _ _ _

theorem sound_run (addStep : UInt32 → Int → UInt32) (build : Build) (modem : Modem)
    (bri rgn : Option UInt8) (actions : List PanelAction) :
    (run addStep build (init modem bri rgn) actions).Sound :=
  List.foldlRecOn actions (step addStep build) (Sound.init modem bri rgn)
    fun _ sound action _ => sound.step addStep build action

/-! ### The hand-over -/

end MenuPanel

/-- The stash holds a value that `ServiceConfig` has yet to apply. -/
def MenuShared.OnItsWay (shared : MenuShared) : Prop :=
  shared.confirming = .raising ∨ shared.applyPending = true ∨ shared.applying = true

namespace MenuPanel

variable {panel : MenuPanel}

theorem pollButton_shared (panel : MenuPanel) (raw : Bool) (now : UInt32) :
    (panel.pollButton raw now).toMenuShared = panel.toMenuShared := by
  rcases panel.pollButton_cases raw now with ⟨last, changedMs, stable, polled | polled⟩
  · rw [polled]
  · rw [polled, back]
    split <;> rfl

theorem pollTrackball_shared (addStep : UInt32 → Int → UInt32) (panel : MenuPanel)
    (up down left right : Nat) :
    (panel.pollTrackball addStep up down left right).toMenuShared = panel.toMenuShared := by
  have stepped : ∀ dir : Int, -1 ≤ dir →
      (panel.editStep addStep dir).toMenuShared = panel.toMenuShared := by
    intro dir notch
    rcases editStep_spec addStep panel notch with ⟨draftI, draftF, stepped, -⟩
    rw [stepped]
  unfold pollTrackball
  split
  · rfl
  · split
    · split
      · exact stepped 1 (by decide)
      · split
        · exact stepped (-1) (by decide)
        · rfl
    · split
      · rfl
      · split <;> rfl

/-- A press confirms the edit, or touches nothing that is shared. -/
theorem pollPress_cases (panel : MenuPanel) (now : UInt32) :
    (panel.pollPress now).toMenuShared = panel.toMenuShared ∨
      panel.editing = true ∧ ¬now - panel.prsLastMs < pressGuardMs ∧
        panel.pollPress now = confirmEdit { panel with prsLastMs := now } := by
  unfold pollPress
  split
  · exact Or.inl rfl
  next accepted =>
    dsimp only
    split
    · split
      next editing => exact Or.inr ⟨editing, accepted, rfl⟩
      · exact Or.inl rfl
    · exact Or.inl rfl

/-- What a step can do to what the tasks share. -/
inductive Moved (build : Build) (panel : MenuPanel) : PanelAction → MenuPanel → Prop where
  | unchanged (action : PanelAction) : Moved build panel action panel
  | polled {action : PanelAction} {later : MenuPanel} (idle : panel.confirming = .idle)
      (same : later.toMenuShared = panel.toMenuShared) : Moved build panel action later
  | confirmed {now : UInt32} (idle : panel.confirming = .idle) (editing : panel.editing = true)
      (accepted : ¬now - panel.prsLastMs < pressGuardMs) :
      Moved build panel (.pressed now) (confirmEdit { panel with prsLastMs := now })
  | stashed (stashing : panel.confirming = .stashing) : Moved build panel .stashed panel.stash
  | raised (raising : panel.confirming = .raising) : Moved build panel .raised panel.raise
  | cleared (pending : panel.applyPending = true) :
      Moved build panel .cleared { panel with applyPending := false, applying := true }
  | applied (applying : panel.applying = true) : Moved build panel .applied panel.applyStash
  | settings (event : SettingsEvent) :
      Moved build panel (.settings event) (panel.settings build event)
  | rebooted : Moved build panel .reboot (init (panel.modem.reboot build) panel.bri panel.rgn)

theorem step_moved (addStep : UInt32 → Int → UInt32) (build : Build) (panel : MenuPanel)
    (action : PanelAction) : Moved build panel action (panel.step addStep build action) := by
  cases action with
  | button raw now =>
      rw [MenuPanel.step]
      split
      next idle => exact .polled idle (panel.pollButton_shared raw now)
      · exact .unchanged _
  | rolled up down left right =>
      rw [MenuPanel.step]
      split
      next idle => exact .polled idle (pollTrackball_shared addStep panel up down left right)
      · exact .unchanged _
  | pressed now =>
      rw [MenuPanel.step]
      split
      next idle =>
        rcases panel.pollPress_cases now with same | ⟨editing, accepted, confirmed⟩
        · exact .polled idle same
        · rw [confirmed]
          exact .confirmed idle editing accepted
      · exact .unchanged _
  | stashed =>
      rw [MenuPanel.step]
      split
      next stashing => exact .stashed stashing
      · exact .unchanged _
  | raised =>
      rw [MenuPanel.step]
      split
      next raising => exact .raised raising
      · exact .unchanged _
  | cleared =>
      rw [MenuPanel.step]
      split
      next pending => exact .cleared pending
      · exact .unchanged _
  | applied =>
      rw [MenuPanel.step]
      split
      next applying => exact .applied applying
      · exact .unchanged _
  | settings event =>
      rw [MenuPanel.step]
      split
      · exact .unchanged _
      · exact .settings event
  | reboot => exact .rebooted

/-- Inside `ConfirmEdit` the stash is the display task's alone, and what is on its way is in
the range of its item. -/
structure Stashed (panel : MenuPanel) : Prop where
  busy : panel.confirming ≠ .idle →
    panel.applyItem = panel.sel ∧ panel.applyPending = false ∧ panel.applying = false
  once : panel.applying = true → panel.applyPending = false
  allowed : panel.OnItsWay → panel.applyItem.Allows panel.applyIval

namespace Stashed

theorem init (modem : Modem) (bri rgn : Option UInt8) :
    (MenuPanel.init modem bri rgn).Stashed where
  busy off := absurd rfl off
  once off := absurd off Bool.false_ne_true
  allowed onItsWay := by simp [MenuShared.OnItsWay, MenuPanel.init] at onItsWay

theorem of_shared (stashed : panel.Stashed) (idle : panel.confirming = .idle) {later : MenuPanel}
    (same : later.toMenuShared = panel.toMenuShared) : later.Stashed := by
  cases later
  cases same
  exact ⟨fun off => absurd idle off, stashed.once, stashed.allowed⟩

theorem confirmEdit (drained : panel.applyPending = false ∧ panel.applying = false) :
    panel.confirmEdit.Stashed where
  busy _ := ⟨rfl, drained⟩
  once applying := absurd (drained.2.symm.trans applying) Bool.false_ne_true
  allowed onItsWay := by
    simp [MenuShared.OnItsWay, MenuPanel.confirmEdit, drained] at onItsWay

theorem stash (stashed : panel.Stashed) (sound : panel.Sound)
    (stashing : panel.confirming = .stashing) : panel.stash.Stashed := by
  have off : panel.confirming ≠ .idle := by simp [stashing]
  rcases stashed.busy off with ⟨same, drained⟩
  have allowed := sound.draft (sound.confirms off)
  unfold MenuPanel.stash
  cases item : panel.sel with
  | bright =>
      rw [item] at allowed same
      refine ⟨fun _ => ⟨same, drained⟩, stashed.once, fun _ => ?_⟩
      have kept := (ofInt_lt allowed.1 allowed.2).2
      simp only [same, kept]
      exact allowed
  | region =>
      rw [item] at allowed same
      refine ⟨fun _ => ⟨same, drained⟩, stashed.once, fun _ => ?_⟩
      have kept := (ofInt_lt allowed.1 allowed.2).2
      simp only [same, kept]
      exact allowed
  | freq =>
      rw [item] at same
      refine ⟨fun _ => ⟨same, drained⟩, stashed.once, fun _ => ?_⟩
      simp only [same]
      trivial
  | mode | power | autoPwr | enc | comp | fs | gfsk | bufMode | bufKeep =>
      rw [item] at allowed same
      refine ⟨fun _ => ⟨same, drained⟩, stashed.once, fun _ => ?_⟩
      simp only [same]
      exact allowed

theorem raise (stashed : panel.Stashed) (raising : panel.confirming = .raising) :
    panel.raise.Stashed where
  busy off := absurd rfl off
  once applying := by
    have drained := (stashed.busy (by simp [raising])).2.2
    exact absurd (drained.symm.trans applying) Bool.false_ne_true
  allowed _ := stashed.allowed (Or.inl raising)

theorem cleared (stashed : panel.Stashed) (pending : panel.applyPending = true) :
    Stashed { panel with applyPending := false, applying := true } where
  busy off := absurd ((stashed.busy off).2.1.symm.trans pending) Bool.false_ne_true
  once _ := rfl
  allowed _ := stashed.allowed (Or.inr (Or.inl pending))

theorem looped (stashed : panel.Stashed) (modem : Modem) (bri rgn : Option UInt8) :
    Stashed { panel with modem := modem, bri := bri, rgn := rgn } :=
  ⟨stashed.busy, stashed.once, stashed.allowed⟩

theorem applied (stashed : panel.Stashed) (applying : panel.applying = true) :
    panel.applyStash.Stashed where
  busy off := absurd ((stashed.busy off).2.2.symm.trans applying) Bool.false_ne_true
  once off := absurd off Bool.false_ne_true
  allowed onItsWay := by
    rcases onItsWay with raising | pending | still
    · exact stashed.allowed (Or.inl raising)
    · exact stashed.allowed (Or.inr (Or.inl pending))
    · cases still

theorem settings (stashed : panel.Stashed) (build : Build) (event : SettingsEvent) :
    (panel.settings build event).Stashed := by
  rcases settings_cases build panel event with same | ⟨-, same | ⟨-, same⟩⟩
  · rw [same]
    exact stashed
  · rw [same]
    exact stashed.looped _ _ _
  · rw [same]
    exact stashed.looped _ _ _

end Stashed

/-- What the stash asks for is a setting in its range, or the brightness. -/
theorem confirmedItem_spec (allowed : panel.applyItem.Allows panel.applyIval) :
    (panel.applyItem = .bright ∧ panel.confirmedItem = none) ∨
      ∃ item, panel.confirmedItem = some item ∧ item.InRange := by
  unfold confirmedItem
  cases item : panel.applyItem with
  | bright => exact Or.inl ⟨rfl, rfl⟩
  | region =>
      rw [item] at allowed
      have few : panel.applyIval = 0 ∨ panel.applyIval = 1 ∨ panel.applyIval = 2 := by
        simp only [ConfigItem.Allows, numRegions] at allowed
        omega
      right
      rcases few with zero | one | two
      · exact ⟨.region .tw, by rw [zero]; rfl, trivial⟩
      · exact ⟨.region .us, by rw [one]; rfl, trivial⟩
      · exact ⟨.region .eu, by rw [two]; rfl, trivial⟩
  | freq => exact Or.inr ⟨.freq panel.applyFval, rfl, trivial⟩
  | mode =>
      rw [item] at allowed
      refine Or.inr ⟨.mode panel.applyIval.toNat, if_neg (Int.not_lt.mpr allowed.1), ?_⟩
      have nonneg := allowed.1
      have below := allowed.2
      simp only [MenuItem.InRange]
      omega
  | power =>
      rw [item] at allowed
      exact Or.inr ⟨.power panel.applyIval, rfl, allowed⟩
  | autoPwr | enc | comp | fs | gfsk => exact Or.inr ⟨_, rfl, trivial⟩
  | bufMode => exact Or.inr ⟨.bufmode (panel.applyIval ≠ 0), rfl, trivial⟩
  | bufKeep =>
      rw [item] at allowed
      refine Or.inr ⟨.bufkeep (.ofInt panel.applyIval), rfl, ?_⟩
      simp only [ConfigItem.Allows, bufKeepMinKb, bufKeepMaxKb] at allowed
      simp only [MenuItem.InRange, bufKeepMinKb, bufKeepMaxKb, UInt32.ofInt, UInt32.toNat_ofNat']
      omega

/-- The settings went through the events of a board, where the menu asks for nothing out of
range. -/
def Refines (build : Build) (prefs : Prefs) (modem : Modem) : Prop :=
  ∃ events, modem = Modem.run build prefs events ∧ ∀ item, .menu item ∈ events → item.InRange

theorem Refines.step {build : Build} {prefs : Prefs} {modem : Modem}
    (refines : Refines build prefs modem) {event : SettingsEvent}
    (inRange : ∀ item, event = .menu item → item.InRange) :
    Refines build prefs (modem.step build event) := by
  rcases refines with ⟨events, rfl, before⟩
  refine ⟨events ++ [event], by simp only [Modem.run, List.foldl_append, List.foldl_cons,
    List.foldl_nil], fun item member => ?_⟩
  rcases List.mem_append.mp member with old | new
  · exact before item old
  · exact inRange item (List.mem_singleton.mp new).symm

/-- What every run keeps whose edits are handed over one by one. -/
structure Handed (build : Build) (prefs : Prefs) (panel : MenuPanel) : Prop where
  sound : panel.Sound
  stashed : panel.Stashed
  refines : Refines build prefs panel.modem

variable {build : Build} {prefs : Prefs}

theorem Handed.settings (handed : Handed build prefs panel) (event : SettingsEvent) :
    Refines build prefs (panel.settings build event).modem := by
  rcases settings_cases build panel event with same | ⟨notMenu, same | ⟨-, same⟩⟩
  · rw [same]
    exact handed.refines
  · rw [same]
    exact handed.refines.step fun item menu => absurd menu (notMenu item)
  · rw [same]
    exact handed.refines.step fun item menu => absurd menu (notMenu item)

theorem Handed.applied (handed : Handed build prefs panel) (applying : panel.applying = true) :
    Refines build prefs panel.applyStash.modem := by
  have allowed := handed.stashed.allowed (Or.inr (Or.inr applying))
  rcases confirmedItem_spec allowed with ⟨-, none⟩ | ⟨item, some, inRange⟩
  · rw [applyStash, none]
    exact handed.refines
  · rw [applyStash, some]
    have stepped : Refines build prefs (panel.modem.step build (.menu item)) := by
      refine handed.refines.step fun other same => ?_
      cases same
      exact inRange
    exact stepped

theorem Stashed.step (stashed : panel.Stashed) (sound : panel.Sound)
    (addStep : UInt32 → Int → UInt32) (build : Build) {action : PanelAction}
    (drained : Drained panel action) : (panel.step addStep build action).Stashed := by
  have moved := step_moved addStep build panel action
  generalize panel.step addStep build action = later at moved ⊢
  cases moved with
  | unchanged => exact stashed
  | polled idle same => exact stashed.of_shared idle same
  | confirmed idle editing accepted => exact Stashed.confirmEdit (drained editing accepted)
  | stashed stashing => exact stashed.stash sound stashing
  | raised raising => exact stashed.raise raising
  | cleared pending => exact stashed.cleared pending
  | applied applying => exact stashed.applied applying
  | settings event => exact stashed.settings build event
  | rebooted => exact Stashed.init _ _ _

/-- The display task leaves the settings to the main loop. -/
theorem stash_modem (panel : MenuPanel) : panel.stash.modem = panel.modem := by
  unfold stash
  split <;> rfl

theorem Handed.modem_step (handed : Handed build prefs panel) (addStep : UInt32 → Int → UInt32)
    (action : PanelAction) : Refines build prefs (panel.step addStep build action).modem := by
  have moved := step_moved addStep build panel action
  generalize panel.step addStep build action = later at moved ⊢
  cases moved with
  | unchanged | confirmed | raised | cleared => exact handed.refines
  | polled idle same =>
      rw [congrArg MenuShared.modem same]
      exact handed.refines
  | stashed =>
      rw [stash_modem]
      exact handed.refines
  | applied applying => exact handed.applied applying
  | settings event => exact handed.settings event
  | rebooted =>
      have stepped : Refines build prefs (panel.modem.step build .reboot) :=
        handed.refines.step nofun
      exact stepped

theorem Handed.step (handed : Handed build prefs panel) (addStep : UInt32 → Int → UInt32)
    {action : PanelAction} (drained : Drained panel action) :
    Handed build prefs (panel.step addStep build action) where
  sound := handed.sound.step addStep build action
  stashed := handed.stashed.step handed.sound addStep build drained
  refines := handed.modem_step addStep action

theorem Handed.init (build : Build) (prefs : Prefs) (bri rgn : Option UInt8) :
    Handed build prefs (init (.setup build prefs) bri rgn) where
  sound := Sound.init _ _ _
  stashed := Stashed.init _ _ _
  refines := ⟨[], rfl, fun _ none => absurd none List.not_mem_nil⟩

/-- Over any run of the two tasks from a boot, where an edit is confirmed once the one before it
has been applied: what the menu shows is in its tables, what `ServiceConfig` has yet to apply is
the brightness or a setting in its range, and the settings went through nothing else. -/
theorem handed_run (addStep : UInt32 → Int → UInt32) (build : Build) (prefs : Prefs)
    (bri rgn : Option UInt8) {actions : List PanelAction}
    (drained : Along (step addStep build) Drained (init (.setup build prefs) bri rgn) actions) :
    let panel := run addStep build (init (.setup build prefs) bri rgn) actions
    panel.Sound ∧
      (panel.applyPending = true ∨ panel.applying = true →
        panel.applyItem = .bright ∧ panel.confirmedItem = none ∨
          ∃ item, panel.confirmedItem = some item ∧ item.InRange) ∧
      ∃ events, panel.modem = Modem.run build prefs events ∧
        ∀ item, .menu item ∈ events → item.InRange := by
  intro panel
  have handed : Handed build prefs panel :=
    drained.invariant_foldl (fun _ _ handed drained => handed.step addStep drained)
      (Handed.init build prefs bri rgn)
  refine ⟨handed.sound, fun onItsWay => ?_, handed.refines⟩
  exact confirmedItem_spec (handed.stashed.allowed (Or.inr onItsWay))

/-- A press of the button, and its release. -/
def click (now : UInt32) : List PanelAction :=
  [.button false now, .button false (now + 31), .button true (now + 62), .button true (now + 93)]

/-- The region one to the left of the chosen one. -/
def pickRegion : List PanelAction :=
  [.rolled 0 1 0 0, .pressed 500, .rolled 0 0 1 0, .pressed 700, .stashed, .raised]

/-- A region that leaves the carrier out changes the carrier. -/
theorem handed_run_region :
    let panel := run (fun freq _ => freq) .standard (init (.setup .standard .cleared) none none)
      (click 100 ++ click 300 ++ pickRegion ++ [.cleared, .applied])
    panel.modem.cfg.freq = (regions .eu).default ∧ panel.Sound := by
  intro panel
  refine ⟨by decide, (handed_run (fun freq _ => freq) .standard .cleared none none ?_).1⟩
  decide

/-- An edit confirmed before the last one is applied takes its item's place: where the main
loop comes between the stores, the region would be the power. -/
example :
    let panel := run (fun freq _ => freq) .standard (init (.setup .standard .cleared) none none)
      (click 100 ++ click 300 ++
        [.rolled 0 1 0 0, .rolled 0 1 0 0, .rolled 0 1 0 0, .rolled 0 1 0 0, .pressed 500,
          .pressed 700, .stashed, .raised, .rolled 1 0 0 0, .rolled 1 0 0 0, .rolled 1 0 0 0,
          .pressed 900, .pressed 1100, .cleared])
    panel.applyItem = .region ∧ panel.applyIval = 22 ∧ regionAt panel.applyIval = none := by
  decide

/-! ### What a reboot finds -/

end MenuPanel

/-- Flash has the brightness and the region, or the stash brings them. -/
structure MenuShared.Kept (shared : MenuShared) : Prop where
  brings : shared.OnItsWay → shared.applyItem = .bright →
    shared.applyIval = shared.bright.toNat
  bringsRegion : shared.OnItsWay → shared.applyItem = .region →
    shared.applyIval = shared.region.toNat
  bri : ¬(shared.OnItsWay ∧ shared.applyItem = .bright) →
    MenuPanel.initBright shared.bri = shared.bright
  rgn : ¬(shared.OnItsWay ∧ shared.applyItem = .region) →
    MenuPanel.initRegion shared.rgn = shared.region

namespace MenuPanel

variable {panel : MenuPanel}

def resets : PanelAction → Bool
  | .settings (.at .factoryReset) => true
  | _ => false

/-- A factory reset clears the flash under a menu that goes on. -/
def Stays (panel : MenuPanel) (action : PanelAction) : Prop :=
  Drained panel action ∧ resets action = false

instance (panel : MenuPanel) (action : PanelAction) : Decidable (Stays panel action) :=
  inferInstanceAs (Decidable (Drained panel action ∧ resets action = false))

theorem initBright_some {level : UInt8} (small : level < 3) : initBright (some level) = level :=
  if_pos small

theorem initRegion_some {region : UInt8} (small : region < 3) :
    initRegion (some region) = region :=
  if_pos small

end MenuPanel

namespace MenuShared.Kept

open MenuPanel

variable {panel : MenuPanel}

theorem init (modem : Modem) (bri rgn : Option UInt8) :
    (MenuPanel.init modem bri rgn).Kept where
  brings onItsWay := by simp [MenuShared.OnItsWay, MenuPanel.init] at onItsWay
  bringsRegion onItsWay := by simp [MenuShared.OnItsWay, MenuPanel.init] at onItsWay
  bri _ := rfl
  rgn _ := rfl

theorem confirmEdit (kept : panel.Kept) (idle : panel.confirming = .idle)
    (drained : panel.applyPending = false ∧ panel.applying = false) :
    panel.confirmEdit.Kept := by
  have before : ¬panel.OnItsWay := by simp [MenuShared.OnItsWay, idle, drained]
  have after : ¬panel.confirmEdit.OnItsWay := by
    simp [MenuShared.OnItsWay, MenuPanel.confirmEdit, drained]
  exact {
    brings := fun onItsWay => absurd onItsWay after
    bringsRegion := fun onItsWay => absurd onItsWay after
    bri := fun _ => kept.bri fun both => before both.1
    rgn := fun _ => kept.rgn fun both => before both.1 }

theorem stash (kept : panel.Kept) (stashed : panel.Stashed)
    (stashing : panel.confirming = .stashing) : panel.stash.Kept := by
  rcases stashed.busy (by simp [stashing]) with ⟨same, drained⟩
  have before : ¬panel.OnItsWay := by simp [MenuShared.OnItsWay, stashing, drained]
  have bri := kept.bri fun both => before both.1
  have rgn := kept.rgn fun both => before both.1
  unfold MenuPanel.stash
  cases item : panel.sel with
  | bright =>
      rw [item] at same
      exact {
        brings := fun _ _ => rfl
        bringsRegion := fun _ region => nomatch same.symm.trans region
        bri := fun other => absurd ⟨Or.inl rfl, same⟩ other
        rgn := fun _ => rgn }
  | region =>
      rw [item] at same
      exact {
        brings := fun _ bright => nomatch same.symm.trans bright
        bringsRegion := fun _ _ => rfl
        bri := fun _ => bri
        rgn := fun other => absurd ⟨Or.inl rfl, same⟩ other }
  | freq | mode | power | autoPwr | enc | comp | fs | gfsk | bufMode | bufKeep =>
      rw [item] at same
      exact {
        brings := fun _ bright => nomatch same.symm.trans bright
        bringsRegion := fun _ region => nomatch same.symm.trans region
        bri := fun _ => bri
        rgn := fun _ => rgn }

/-- The stash is on its way as long as it has not been applied. -/
theorem onward {before after : MenuShared} (kept : before.Kept)
    (onItsWay : before.OnItsWay) (bri : after.bri = before.bri) (rgn : after.rgn = before.rgn)
    (bright : after.bright = before.bright) (region : after.region = before.region)
    (applyItem : after.applyItem = before.applyItem)
    (applyIval : after.applyIval = before.applyIval) (still : after.OnItsWay) : after.Kept where
  brings _ item := by
    rw [applyIval, bright]
    exact kept.brings onItsWay (applyItem ▸ item)
  bringsRegion _ item := by
    rw [applyIval, region]
    exact kept.bringsRegion onItsWay (applyItem ▸ item)
  bri other := by
    rw [bri, bright]
    exact kept.bri fun both => other ⟨still, applyItem.trans both.2⟩
  rgn other := by
    rw [rgn, region]
    exact kept.rgn fun both => other ⟨still, applyItem.trans both.2⟩

theorem applied (kept : panel.Kept) (sound : panel.Sound) (stashed : panel.Stashed)
    (applying : panel.applying = true) : panel.applyStash.Kept := by
  have onItsWay : panel.OnItsWay := Or.inr (Or.inr applying)
  have settled : ¬panel.applyStash.OnItsWay := by
    rintro (raising | pending | still)
    · have off : panel.confirming = .raising := raising
      have drained := (stashed.busy (by simp [off])).2.2
      exact absurd (drained.symm.trans applying) Bool.false_ne_true
    · exact absurd ((stashed.once applying).symm.trans pending) Bool.false_ne_true
    · cases still
  exact {
    brings := fun later => absurd later settled
    bringsRegion := fun later => absurd later settled
    bri := fun _ => by
      dsimp only [applyStash]
      split
      next item =>
        rw [kept.brings onItsWay item, ofInt_toNat]
        exact initBright_some sound.bright
      next other => exact kept.bri fun both => other both.2
    rgn := fun _ => by
      dsimp only [applyStash]
      split
      next item =>
        rw [kept.bringsRegion onItsWay item, ofInt_toNat]
        exact initRegion_some sound.region
      next other => exact kept.rgn fun both => other both.2 }

theorem settings (kept : panel.Kept) (build : Build) {event : SettingsEvent}
    (noReset : event ≠ .at .factoryReset) : (panel.settings build event).Kept := by
  rcases settings_cases build panel event with same | ⟨-, same | ⟨reset, -⟩⟩
  · rw [same]
    exact kept
  · rw [same]
    exact ⟨kept.brings, kept.bringsRegion, kept.bri, kept.rgn⟩
  · exact absurd reset noReset

theorem step (kept : panel.Kept) (sound : panel.Sound) (stashed : panel.Stashed)
    (addStep : UInt32 → Int → UInt32) (build : Build) {action : PanelAction}
    (stays : Stays panel action) : (panel.step addStep build action).Kept := by
  have moved := step_moved addStep build panel action
  generalize panel.step addStep build action = later at moved ⊢
  cases moved with
  | unchanged => exact kept
  | polled idle same =>
      rw [same]
      exact kept
  | confirmed idle editing accepted => exact kept.confirmEdit idle (stays.1 editing accepted)
  | stashed stashing => exact kept.stash stashed stashing
  | raised raising =>
      exact kept.onward (Or.inl raising) rfl rfl rfl rfl rfl rfl (Or.inr (Or.inl rfl))
  | cleared pending =>
      exact kept.onward (Or.inr (Or.inl pending)) rfl rfl rfl rfl rfl rfl (Or.inr (Or.inr rfl))
  | applied applying => exact kept.applied sound stashed applying
  | settings event =>
      refine kept.settings build fun reset => ?_
      have noReset := stays.2
      rw [reset] at noReset
      cases noReset
  | rebooted => exact init _ _ _

end MenuShared.Kept

namespace MenuPanel

variable {panel : MenuPanel}

/-- What every run keeps whose edits are handed over one by one, the flash included. -/
structure Lasting (panel : MenuPanel) : Prop where
  sound : panel.Sound
  stashed : panel.Stashed
  kept : panel.Kept

theorem Lasting.init (modem : Modem) (bri rgn : Option UInt8) :
    (init modem bri rgn).Lasting where
  sound := Sound.init modem bri rgn
  stashed := Stashed.init modem bri rgn
  kept := MenuShared.Kept.init modem bri rgn

theorem Lasting.step (lasting : panel.Lasting) (addStep : UInt32 → Int → UInt32) (build : Build)
    {action : PanelAction} (stays : Stays panel action) :
    (panel.step addStep build action).Lasting where
  sound := lasting.sound.step addStep build action
  stashed := lasting.stashed.step lasting.sound addStep build stays.1
  kept := lasting.kept.step lasting.sound lasting.stashed addStep build stays

/-- Over any run of the two tasks without a factory reset, where an edit is confirmed once the
one before it has been applied: a reboot that no stash is on its way to comes back with the
brightness and the region that were chosen. -/
theorem kept_run (addStep : UInt32 → Int → UInt32) (build : Build) (modem : Modem)
    (bri rgn : Option UInt8) {actions : List PanelAction}
    (stays : Along (step addStep build) Stays (init modem bri rgn) actions) :
    let panel := run addStep build (init modem bri rgn) actions
    ¬panel.OnItsWay →
      let later := panel.step addStep build .reboot
      later.bright = panel.bright ∧ later.shown = panel.bright ∧ later.region = panel.region := by
  intro panel settled later
  have lasting : panel.Lasting :=
    stays.invariant_foldl (fun _ _ lasting stays => lasting.step addStep build stays)
      (Lasting.init modem bri rgn)
  have bri := lasting.kept.bri fun both => settled both.1
  have rgn := lasting.kept.rgn fun both => settled both.1
  exact ⟨bri, bri, rgn⟩

/-- The region is in flash before the reboot. -/
theorem kept_run_region :
    let panel := run (fun freq _ => freq) .standard (init (.setup .standard .cleared) none none)
      (click 100 ++ click 300 ++ pickRegion ++ [.cleared, .applied])
    panel.region = 2 ∧ (panel.step (fun freq _ => freq) .standard .reboot).region = 2 := by
  intro panel
  have settled : ¬panel.OnItsWay := by
    rintro (raising | pending | applying)
    · revert raising
      decide
    · revert pending
      decide
    · revert applying
      decide
  have region : panel.region = 2 := by decide
  refine ⟨region, ?_⟩
  rw [← region]
  exact (kept_run (fun freq _ => freq) .standard (.setup .standard .cleared) none none
    (by decide) settled).2.2

/-- An edit confirmed before the last one is applied: the brightness that is shown never
reaches the flash. -/
example :
    let panel := run (fun freq _ => freq) .standard (init (.setup .standard .cleared) none none)
      (click 100 ++ click 300 ++
        [.pressed 500, .rolled 0 0 0 1, .pressed 700, .stashed, .raised] ++
        [.rolled 1 0 0 0, .pressed 900, .pressed 1100, .stashed, .raised, .cleared, .applied])
    panel.bright = 2 ∧ (panel.step (fun freq _ => freq) .standard .reboot).bright = 1 := by
  decide

/-! ### An edit that is given up -/

/-- The panel in an edit that has come to these drafts. -/
def drafting (panel : MenuPanel) (draftI : Int) (draftF : UInt32) : MenuPanel :=
  { panel with
    draftI := draftI
    draftF := draftF
    shown := if panel.sel = .bright then .ofInt draftI else panel.shown
    editing := true }

theorem pollTrackball_drafting (addStep : UInt32 → Int → UInt32)
    (onConfig : panel.screen = .config) (draftI : Int) (draftF : UInt32)
    (up down left right : Nat) :
    ∃ laterI laterF, (panel.drafting draftI draftF).pollTrackball addStep up down left right =
      panel.drafting laterI laterF := by
  have stepped : ∀ dir : Int, -1 ≤ dir → ∃ laterI laterF,
      (panel.drafting draftI draftF).editStep addStep dir = panel.drafting laterI laterF := by
    intro dir notch
    rcases editStep_spec addStep (panel.drafting draftI draftF) notch with
      ⟨laterI, laterF, stepped, -⟩
    refine ⟨laterI, laterF, stepped.trans ?_⟩
    by_cases item : panel.sel = .bright <;> simp [drafting, item]
  have editing : (panel.drafting draftI draftF).editing = true := rfl
  have screen : (panel.drafting draftI draftF).screen = .config := onConfig
  rw [pollTrackball, if_neg (not_not.mpr screen), if_pos editing]
  split
  · exact stepped 1 (by decide)
  · split
    · exact stepped (-1) (by decide)
    · exact ⟨draftI, draftF, rfl⟩

/-- Rolls of the trackball, inside an edit. -/
def rolls (notches : List (Nat × Nat × Nat × Nat)) : List PanelAction :=
  notches.map fun (up, down, left, right) => .rolled up down left right

theorem run_rolls_drafting (panel : MenuPanel) (addStep : UInt32 → Int → UInt32) (build : Build)
    (onConfig : panel.screen = .config) (idle : panel.confirming = .idle)
    (notches : List (Nat × Nat × Nat × Nat)) (draftI : Int) (draftF : UInt32) :
    ∃ laterI laterF, run addStep build (panel.drafting draftI draftF) (rolls notches) =
      panel.drafting laterI laterF := by
  induction notches generalizing draftI draftF with
  | nil => exact ⟨draftI, draftF, rfl⟩
  | cons notch rest inductionHypothesis =>
      obtain ⟨up, down, left, right⟩ := notch
      rcases pollTrackball_drafting addStep onConfig draftI draftF up down left right with
        ⟨laterI, laterF, polled⟩
      have stepped : (panel.drafting draftI draftF).step addStep build
          (.rolled up down left right) = panel.drafting laterI laterF :=
        (if_pos idle).trans polled
      rw [rolls, List.map_cons, run, List.foldl_cons, stepped]
      exact inductionHypothesis laterI laterF

/-- An edit begins with what is shown. -/
theorem enterEdit_drafting (panel : MenuPanel) (shown : panel.shown = panel.bright) :
    panel.enterEdit = panel.drafting panel.enterEdit.draftI panel.enterEdit.draftF := by
  have same : (if panel.sel = .bright then .ofInt panel.seed else panel.shown) = panel.shown := by
    split
    next item => exact (ofInt_seed item).trans shown.symm
    · rfl
  simp only [drafting, enterEdit, same]

theorem back_drafting (panel : MenuPanel) (onConfig : panel.screen = .config)
    (resting : panel.editing = false) (shown : panel.shown = panel.bright) (draftI : Int) (draftF : UInt32) :
    (panel.drafting draftI draftF).back = { panel with draftI := draftI, draftF := draftF } := by
  rw [back, if_pos ⟨onConfig, rfl⟩]
  by_cases item : panel.sel = .bright <;> simp [cancelEdit, drafting, item, shown, resting]

/-- A released button that is found pressed, and again after the debounce, is a press. -/
theorem run_press_back (panel : MenuPanel) (addStep : UInt32 → Int → UInt32) (build : Build)
    (idle : panel.confirming = .idle) (released : panel.btnStable = true ∧ panel.btnLast = true)
    {first second : UInt32} (settled : btnDebounce < second - first) :
    run addStep build panel [.button false first, .button false second] =
      { panel with btnStable := false, btnLast := false, btnChangedMs := first }.back := by
  have seen : panel.pollButton false first =
      { panel with btnLast := false, btnChangedMs := first } := by
    simp [pollButton, released.2, btnDebounce]
  simp only [run, List.foldl_cons, List.foldl_nil, step, if_pos idle, seen]
  simp [pollButton, released.1, settled]

/-- From any state of any run with the menu at rest: an edit that a press enters, and that is
given up with the button after any rolls of the trackball, has changed nothing but the drafts
and the records of the two buttons. -/
theorem givenUp_run (addStep : UInt32 → Int → UInt32) (build : Build) (modem : Modem)
    (bri rgn : Option UInt8) (actions : List PanelAction)
    (notches : List (Nat × Nat × Nat × Nat)) (pressed first second : UInt32) :
    let panel := run addStep build (init modem bri rgn) actions
    panel.screen = .config → panel.editing = false →
      panel.btnStable = true ∧ panel.btnLast = true →
      ¬pressed - panel.prsLastMs < pressGuardMs → btnDebounce < second - first →
      ∃ draftI draftF,
        run addStep build panel ([.pressed pressed] ++ rolls notches ++
          [.button false first, .button false second]) =
        { panel with
          draftI := draftI
          draftF := draftF
          prsLastMs := pressed
          btnStable := false
          btnLast := false
          btnChangedMs := first } := by
  intro panel onConfig resting released guarded settled
  have sound : panel.Sound := sound_run addStep build modem bri rgn actions
  have idle : panel.confirming = .idle := by
    by_contra busy
    rw [sound.confirms busy] at resting
    cases resting
  have shown : panel.shown = panel.bright := by simpa [resting] using sound.shown
  let accepted : MenuPanel := { panel with prsLastMs := pressed }
  have entered : panel.step addStep build (.pressed pressed) = accepted.enterEdit := by
    simp [step, idle, pollPress, guarded, onConfig, resting, accepted]
  rcases run_rolls_drafting accepted addStep build onConfig idle notches
    accepted.enterEdit.draftI accepted.enterEdit.draftF with ⟨draftI, draftF, rolled⟩
  refine ⟨draftI, draftF, ?_⟩
  have run_append : ∀ (start : MenuPanel) (before after : List PanelAction),
      run addStep build start (before ++ after) =
        run addStep build (run addStep build start before) after :=
    fun start before after => List.foldl_append
  rw [run_append, run_append]
  change run addStep build (run addStep build (panel.step addStep build (.pressed pressed)) _) _ = _
  rw [entered, enterEdit_drafting accepted shown, rolled,
    run_press_back (accepted.drafting draftI draftF) addStep build idle released settled]
  exact back_drafting { accepted with btnStable := false, btnLast := false, btnChangedMs := first }
    onConfig resting shown draftI draftF

/-- A brightness that was tried and given up. -/
theorem givenUp_run_bright :
    let panel := run (fun freq _ => freq) .standard (init (.setup .standard .cleared) none none)
      (click 100 ++ click 300)
    let edit := [.pressed 500] ++ rolls [(0, 0, 0, 1)]
    (run (fun freq _ => freq) .standard panel edit).shown = 2 ∧
      (run (fun freq _ => freq) .standard panel
        (edit ++ [.button false 600, .button false 640])).shown = 1 := by
  intro panel edit
  rcases givenUp_run (fun freq _ => freq) .standard (.setup .standard .cleared) none none
    (click 100 ++ click 300) [(0, 0, 0, 1)] 500 600 640 (by decide) (by decide)
    (by decide) (by decide) (by decide) with ⟨_, _, same⟩
  have shown := congrArg MenuPanel.shown same
  have booted : panel.shown = 1 := by decide
  exact ⟨by decide, shown.trans booted⟩

end MenuPanel

end LoraSerial.Device
