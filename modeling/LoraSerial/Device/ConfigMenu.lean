import LoraSerial.Device.ModeControl

/-!
Owns the config menu of one board and the two tasks that share it: the display task leaves
a confirmed edit, `ServiceConfig` applies it at the top of the main loop. Every load and
store of a shared field is a step, and so is every call of the main loop that touches the
mode-switch engine, the radio or the saved mode, in the loop's order. Of the settings only
the mode is part of it.
-/

namespace LoraSerial.Device

inductive ConfigItem where
  | bright | region | freq | mode | power | autoPwr | enc | comp | fs | gfsk | bufMode | bufKeep
deriving DecidableEq, Repr

/-- `FeatFor(item)` finds a row. -/
def ConfigItem.isFeature : ConfigItem → Bool
  | .autoPwr | .enc | .comp | .fs | .gfsk => true
  | _ => false

/-- Where `ConfirmEdit` stands, with the integer it has yet to store. -/
inductive DisplayTask where
  | idle
  | stashing (ival : Option Int)
  | raising
deriving DecidableEq, Repr

/-- Where the main loop stands: in `ServiceConfig` up to `saving`, then before the poll of
the engine, before the end of the turn, and after the frames of the turn. -/
inductive LoopStage where
  | deferred | clearing | matching | switching | pinning | requesting | targeting | saving
  | hosting | turning | closing
deriving DecidableEq, Repr

/-- The stage after a call of the loop, where the loop makes it. Host commands come in
`Poll`, which the radio's waits call as well. -/
def LoopStage.after : LoopStage → NodeAction → Option LoopStage
  | .hosting, .polled _ _ => some .turning
  | .hosting, .atMode _ _ | .hosting, .atFmode _ | .hosting, .factoryReset _ => some .hosting
  | .turning, .atMode _ _ | .turning, .atFmode _ | .turning, .factoryReset _ => some .turning
  | .turning, .reinit | .turning, .rendezvous => some .turning
  | .turning, .requested _ | .turning, .aborted => some .turning
  | .turning, .heard _ _ => some .closing
  | .turning, .serviced _ => some .deferred
  | .closing, .atMode _ _ | .closing, .atFmode _ | .closing, .factoryReset _ => some .closing
  | .closing, .serviced _ | .closing, .sent _ => some .deferred
  | _, _ => none

/-- Host commands come in the stages after `ServiceConfig`. -/
def LoopStage.hosts : LoopStage → Bool
  | .hosting | .turning | .closing => true
  | _ => false

/-- `CurrentModeIndex()` -/
def Radio.modeIndex (radio : Radio) : Int :=
  match radio.currentModeIndex with
  | none => -1
  | some idx => idx

theorem Radio.modeIndex_eq_iff {radio : Radio} {idx : Nat} :
    radio.modeIndex = idx ↔ radio.currentModeIndex = some idx := by
  unfold Radio.modeIndex
  split
  next custom =>
      rw [custom]
      refine iff_of_false (fun same => ?_) nofun
      omega
  next current => rw [current, Int.ofNat_inj, Option.some_inj]

/-- `Request` from the menu. The engine takes a negative target for none. -/
def Node.requestMode (node : Node) : Int → Node
  | .ofNat idx => { node with ms := node.ms.request idx }
  | .negSucc _ => node

/-- `ApplyModeByIndex` and `Begin` from the menu. -/
def Node.followMode (node : Node) (ival : Int) : Node :=
  beginModeSwitch { node with radio := (node.radio.applyModeByIndex ival.toNat?).2 }

/-- The saved mode after a call of the loop. `prefs.clear()` leaves the build's mode. -/
def NodeAction.savedMode (saved : PhyConfig) : NodeAction → PhyConfig
  | .factoryReset built => built
  | _ => saved

/-- `saved` is the mode `LoadSettings` would find. -/
structure ConfigMenu where
  node : Node
  saved : PhyConfig
  display : DisplayTask
  applyPending : Bool
  applyItem : ConfigItem
  applyIval : Int
  modeSavePending : Bool
  modeSaveTarget : Int
  stage : LoopStage
deriving DecidableEq, Repr

/-- `loop` is a call of the main loop that touches the engine or the radio, `returned` the
end of a turn without one. -/
inductive ConfigAction where
  | confirmed (item : ConfigItem) (draft : Int)
  | stashed
  | raised
  | serviced (isInitiator : Bool)
  | loop (action : NodeAction)
  | returned
  | atSave
  | reboot (built : PhyConfig)

namespace ConfigMenu

def setup (built saved : PhyConfig) : ConfigMenu where
  node := .setup built saved
  saved := saved
  display := .idle
  applyPending := false
  applyItem := .bright
  applyIval := 0
  modeSavePending := false
  modeSaveTarget := 0
  stage := .deferred

def saveSettings (menu : ConfigMenu) : ConfigMenu :=
  { menu with saved := menu.node.radio.cfg }

/-! ### The display task -/

/-- `ConfirmEdit` stores the item, then the draft, and raises the flag last. A frequency
goes to a field of its own. -/
def confirmEdit (menu : ConfigMenu) (item : ConfigItem) (draft : Int) : ConfigMenu :=
  match menu.display with
  | .idle =>
      { menu with
        applyItem := item
        display := .stashing (if item = .freq then none else some draft) }
  | _ => menu

def stash (menu : ConfigMenu) : ConfigMenu :=
  match menu.display with
  | .stashing ival =>
      { menu with applyIval := ival.getD menu.applyIval, display := .raising }
  | _ => menu

def raiseFlag (menu : ConfigMenu) : ConfigMenu :=
  match menu.display with
  | .raising => { menu with applyPending := true, display := .idle }
  | _ => menu

/-! ### The main loop -/

/-- The radio is on the mode of a pick that is not saved yet. -/
def deferredSave (menu : ConfigMenu) : Bool :=
  menu.modeSavePending && menu.node.radio.modeIndex == menu.modeSaveTarget

/-- The deferred save of `ServiceConfig`. -/
def saveDeferred (menu : ConfigMenu) : ConfigMenu :=
  if menu.deferredSave then { menu with modeSavePending := false }.saveSettings else menu

/-- The next access of `ServiceConfig` to a shared field, and what it does with it. -/
def serviceConfig (menu : ConfigMenu) (isInitiator : Bool) : ConfigMenu :=
  match menu.stage with
  | .deferred =>
      { menu.saveDeferred with stage := if menu.applyPending then .clearing else .hosting }
  | .clearing => { menu with applyPending := false, stage := .matching }
  | .matching => { menu with stage := if menu.applyItem.isFeature then .saving else .switching }
  | .switching =>
      { menu with
        stage :=
          match menu.applyItem with
          | .mode => .pinning
          | .region | .freq | .power | .bufMode | .bufKeep => .saving
          | _ => .hosting }
  | .pinning =>
      if isInitiator then
        if menu.applyIval ≠ menu.node.radio.modeIndex then { menu with stage := .requesting }
        else { menu.saveSettings with stage := .hosting }
      else
        { { menu with node := menu.node.followMode menu.applyIval }.saveSettings with
          stage := .hosting }
  | .requesting =>
      { menu with
        node := menu.node.requestMode menu.applyIval
        stage := .targeting }
  | .targeting =>
      { menu with
        modeSaveTarget := menu.applyIval
        modeSavePending := true
        stage := .hosting }
  | .saving => { menu.saveSettings with stage := .hosting }
  | _ => menu

def loopStep (menu : ConfigMenu) (action : NodeAction) : ConfigMenu :=
  match menu.stage.after action with
  | none => menu
  | some stage =>
      { menu with
        node := menu.node.step action
        saved := action.savedMode menu.saved
        stage := stage }

def step (menu : ConfigMenu) : ConfigAction → ConfigMenu
  | .confirmed item draft => menu.confirmEdit item draft
  | .stashed => menu.stash
  | .raised => menu.raiseFlag
  | .serviced isInitiator => menu.serviceConfig isInitiator
  | .loop action => menu.loopStep action
  | .returned => if menu.stage = .turning then { menu with stage := .deferred } else menu
  | .atSave => if menu.stage.hosts then menu.saveSettings else menu
  | .reboot built => .setup built menu.saved

/-- `ServiceConfig` saves a pick that waited for its switch. -/
def savesDeferred (menu : ConfigMenu) : ConfigAction → Bool
  | .serviced _ => menu.stage == .deferred && menu.deferredSave
  | _ => false

/-- `ServiceConfig` saves a pick of the mode the radio is already on. -/
def savesCurrent (menu : ConfigMenu) : ConfigAction → Bool
  | .serviced isInitiator =>
      menu.stage == .pinning && isInitiator && menu.applyIval == menu.node.radio.modeIndex
  | _ => false

/-- The index that the engine asks the peer for after `Request`, when it is the picked one. -/
def started (menu : ConfigMenu) : Option Nat :=
  (menu.node.requestMode menu.applyIval).ms.target.filter fun idx => menu.applyIval == idx

/-! ### Undisturbed -/

section SaveDeferred

variable (menu : ConfigMenu)

@[simp] theorem saveDeferred_node : menu.saveDeferred.node = menu.node := by
  unfold saveDeferred
  split <;> rfl

@[simp] theorem saveDeferred_applyItem : menu.saveDeferred.applyItem = menu.applyItem := by
  unfold saveDeferred
  split <;> rfl

@[simp] theorem saveDeferred_applyIval : menu.saveDeferred.applyIval = menu.applyIval := by
  unfold saveDeferred
  split <;> rfl

end SaveDeferred

/-- Undisturbed by the display task, `ServiceConfig` does to the engine and the radio what
a pick of a mode does. -/
theorem serviceConfig_pick {menu : ConfigMenu} {idx : Nat} (start : menu.stage = .deferred)
    (pending : menu.applyPending = true) (item : menu.applyItem = .mode)
    (ival : menu.applyIval = idx) (isInitiator : Bool) :
    ((List.replicate 7 (ConfigAction.serviced isInitiator)).foldl step menu).node =
      menu.node.pinMode isInitiator idx := by
  have loads : (List.replicate 4 (ConfigAction.serviced isInitiator)).foldl step menu =
      { menu.saveDeferred with applyPending := false, stage := .pinning } := by
    simp [List.replicate, step, serviceConfig, start, pending, item, ConfigItem.isFeature]
  have parts : List.replicate 7 (ConfigAction.serviced isInitiator) =
      List.replicate 4 (.serviced isInitiator) ++ List.replicate 3 (.serviced isInitiator) := rfl
  rw [parts, List.foldl_append, loads]
  cases isInitiator with
  | false =>
      have index : (idx : Int).toNat? = some idx := rfl
      simp [List.replicate, step, serviceConfig, Node.followMode, Node.pinMode, saveSettings,
        ival, index]
  | true =>
      by_cases already : menu.node.radio.currentModeIndex = some idx
      · have same := Radio.modeIndex_eq_iff.mpr already
        simp [List.replicate, step, serviceConfig, ival, same, saveSettings, Node.pinMode,
          already]
      · have differs := mt Radio.modeIndex_eq_iff.mp already
        simp [List.replicate, step, serviceConfig, ival, Ne.symm differs, Node.pinMode,
          Ne.symm already, Node.requestMode]

end ConfigMenu

end LoraSerial.Device
