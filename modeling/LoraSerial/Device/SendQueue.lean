import LoraSerial.Device.Settings

/-!
Owns when the send queue follows its settings: the retention policy and the keep window
the ring was last given, against the ones `cfg` describes, over every boot and whatever
is done to the board afterwards.
-/

namespace LoraSerial.Device

open Host (Policy)
open Library

namespace Modem

/-- The ring has the policy and the window `cfg` describes. -/
def Follows (modem : Modem) : Prop :=
  modem.policy = modem.cfg.policy ∧ modem.keep = modem.cfg.bufkeep

instance (modem : Modem) : Decidable modem.Follows :=
  inferInstanceAs (Decidable (_ ∧ _))

/-- The settings a boot loads describe what a zeroed `cfg` does: keep everything, with an
empty window. -/
def BootsAsZeroed (build : Build) (prefs : Prefs) : Prop :=
  (prefs.settings build).policy = .keepAll ∧ (prefs.settings build).bufkeep = 0

/-- A boot loads settings that describe the queue it has set up already, and a factory
reset finds the queue at the defaults. -/
def Reapplied (build : Build) (modem : Modem) : SettingsEvent → Prop
  | .reboot => BootsAsZeroed build modem.prefs
  | .at .factoryReset => modem.policy = .keepAll ∧ modem.keep = bufKeepDefault
  | _ => True

variable {modem : Modem} {build : Build} {prefs : Prefs}

/-- Whatever touches neither the queue nor its settings. -/
theorem Follows.of_same {other : Modem} (follows : modem.Follows)
    (policy : other.policy = modem.policy) (keep : other.keep = modem.keep)
    (bufmode : other.cfg.bufmode = modem.cfg.bufmode)
    (bufkeep : other.cfg.bufkeep = modem.cfg.bufkeep) : other.Follows := by
  unfold Follows ModemSettings.policy
  rw [policy, keep, bufmode, bufkeep]
  exact follows

theorem follows_applyBufPolicy (modem : Modem) : modem.applyBufPolicy.Follows :=
  ⟨rfl, rfl⟩

theorem follows_setup : (setup build prefs).Follows ↔ BootsAsZeroed build prefs := by
  rw [setup_eq]
  exact and_congr eq_comm eq_comm

/-- The reset loads the defaults and leaves the ring as it is. -/
theorem follows_factoryReset :
    (modem.factoryReset build).Follows ↔ modem.policy = .keepAll ∧ modem.keep = bufKeepDefault :=
  Iff.rfl

namespace Follows

theorem setFeature (follows : modem.Follows) (feature : UInt8) (on : Bool) :
    (modem.setFeature feature on).Follows :=
  follows.of_same rfl rfl rfl rfl

theorem applyModeByIndex (follows : modem.Follows) (idx : Option Nat) :
    (modem.applyModeByIndex idx).Follows :=
  follows.of_same rfl rfl rfl rfl

theorem saveSettings (follows : modem.Follows) : modem.saveSettings.Follows :=
  follows.of_same rfl rfl rfl rfl

theorem setFrequency (follows : modem.Follows) (freq : UInt32) :
    (modem.setFrequency freq).Follows :=
  follows.of_same rfl rfl rfl rfl

/-- Every command but the factory reset applies the policy after it changes it. -/
theorem atExec (follows : modem.Follows) {command : AtCommand}
    (noReset : command ≠ .factoryReset) : (modem.atExec build command).Follows := by
  cases command with
  | addr v => exact follows.of_same rfl rfl rfl rfl
  | peer v => exact follows.of_same rfl rfl rfl rfl
  | pwr v => exact follows.of_same rfl rfl rfl rfl
  | fmode name =>
      dsimp only [Modem.atExec]
      split
      next => exact follows
      next => exact (follows.applyModeByIndex _).setFeature _ _
  | modeAuto => exact follows.setFeature _ _
  | mode name =>
      dsimp only [Modem.atExec]
      split
      next => exact follows
      next =>
        split
        next => exact follows.setFeature _ _
        next => exact (follows.setFeature _ _).applyModeByIndex _
  | feature feature v => exact follows.setFeature _ _
  | name s => exact follows.of_same rfl rfl rfl rfl
  | freq fv =>
      dsimp only [Modem.atExec]
      split
      next => exact follows
      next => exact follows.setFrequency fv
  | sync v => exact follows.of_same rfl rfl rfl rfl
  | bufmode policy =>
      cases policy with
      | keepAll => exact follows_applyBufPolicy _
      | keepLatest => exact follows_applyBufPolicy _
  | bufkeep v =>
      dsimp only [Modem.atExec]
      split
      next => exact follows
      next => exact follows_applyBufPolicy _
  | save => exact follows.saveSettings
  | factoryReset => exact absurd rfl noReset

theorem serviceConfig (follows : modem.Follows) (item : MenuItem) :
    (modem.serviceConfig item).Follows := by
  cases item with
  | feature feature on => exact (follows.setFeature _ _).saveSettings
  | region region =>
      dsimp only [Modem.serviceConfig]
      split
      next => exact (follows.setFrequency _).saveSettings
      next => exact follows.saveSettings
  | freq value => exact (follows.setFrequency _).saveSettings
  | mode idx =>
      have pinned := follows.setFeature featAdr false
      dsimp only [Modem.serviceConfig]
      split
      next =>
        split
        next => exact pinned.saveSettings
        next => exact pinned
      next => exact (pinned.applyModeByIndex _).saveSettings
  | power value => exact follows.of_same rfl rfl rfl rfl
  | bufmode keeplatest => exact (follows_applyBufPolicy _).saveSettings
  | bufkeep kib => exact (follows_applyBufPolicy _).saveSettings

/-- One event on a board whose queue follows its settings. -/
theorem step_iff (follows : modem.Follows) (event : SettingsEvent) :
    (modem.step build event).Follows ↔ modem.Reapplied build event := by
  cases event with
  | reboot => exact follows_setup
  | «at» command =>
      by_cases reset : command = .factoryReset
      · subst reset
        exact follows_factoryReset
      · have harmless : modem.Reapplied build (.at command) := by
          cases command <;> trivial
        exact iff_of_true (follows.atExec reset) harmless
  | menu item => exact iff_of_true (follows.serviceConfig item) trivial
  | modeSwitched idx => exact iff_of_true (follows.applyModeByIndex idx) trivial
  | modeSaved target =>
      refine iff_of_true ?_ trivial
      dsimp only [Modem.step]
      split
      next => exact follows.saveSettings
      next => exact follows
  | powerSet dbm => exact iff_of_true (follows.of_same rfl rfl rfl rfl) trivial
  | elected isInitiator => exact iff_of_true (follows.of_same rfl rfl rfl rfl) trivial
  | trained => exact iff_of_true (follows.setFeature _ _) trivial
  | rolePersisted => exact iff_of_true (follows.of_same rfl rfl rfl rfl) trivial
  | reinit => exact iff_of_true (follows.of_same rfl rfl rfl rfl) trivial

end Follows

/-- The queue follows its settings after a boot and after every event that comes later,
exactly when every boot and every factory reset happens to find it as the settings it
loads describe it. -/
theorem queue_follows_iff (build : Build) (prefs : Prefs) (events : List SettingsEvent) :
    (∀ before, before <+: events → (run build prefs before).Follows) ↔
      BootsAsZeroed build prefs ∧
        Run.Along (step build) (Reapplied build) (setup build prefs) events := by
  have reached : (∀ before, before <+: events → (run build prefs before).Follows) ↔
      (setup build prefs).Follows ∧
        Run.Along (step build) (fun modem event => (modem.step build event).Follows)
          (setup build prefs) events :=
    Run.forall_prefix_iff
  refine reached.trans ?_
  rw [follows_setup]
  refine and_congr_right fun boots => ?_
  exact Run.along_iff (fun state event follows => follows.step_iff event)
    (fun state event follows reapplied => (follows.step_iff event).mpr reapplied)
    (follows_setup.mpr boots) events

/-- A board saved as keeplatest keeps everything after a reboot. -/
theorem saved_keepLatest_lost :
    let board := run .standard .cleared [.at (.bufmode .keepLatest), .at .save, .reboot]
    ¬board.Follows ∧ board.cfg.policy = .keepLatest ∧ board.policy = .keepAll := by
  decide

end Modem

end LoraSerial.Device
