import LoraSerial.Device.ConfigMenu

/-!
Owns what becomes of a mode picked in the menu of the initiator: when `ServiceConfig`
saves it, and when a switch that fails leaves the saved mode as it was.
-/

namespace LoraSerial.Device

open Library.Run

/-! ### The fate of a pick -/

/-- What became of a picked switch. On trial: the mode saved without `ServiceConfig`, and
whether `ServiceConfig` saved since. -/
inductive Fate where
  | asked
  | trial (kept : PhyConfig) (touched : Bool)
  | confirmed
  | failed
deriving DecidableEq, Repr

namespace Fate

/-- The switch brought the radio to the picked mode. -/
def landed : Fate → Bool
  | .trial _ _ | .confirmed => true
  | _ => false

/-- `ServiceConfig` saves. -/
def touch : Fate → Fate
  | .trial kept _ => .trial kept true
  | fate => fate

/-- The host saves. -/
def keep (saved : PhyConfig) : Fate → Fate
  | .trial _ touched => .trial saved touched
  | fate => fate

/-- The engine starts over. -/
def cut : Fate → Fate
  | .confirmed => .confirmed
  | _ => .failed

/-- A call of the main loop. A switch that is neither asked for nor acknowledged any more
has failed, unless it was just applied; so has a trial that anything but a frame of the
peer ends. -/
def next (mode : Nat) (node : Node) (saved : PhyConfig) (action : NodeAction) : Fate → Fate
  | .asked =>
      let after := (node.step action).ms
      if action.begins node then .failed
      else if after.target = some mode ∨ after.apply = some mode then .asked
      else if node.ms.apply = some mode ∧ after.current = some mode then .trial saved false
      else .failed
  | .trial kept touched =>
      if action.begins node || action.expires node ||
          (node.step action).ms.current ≠ some mode then .failed
      else
        match action with
        | .heard _ _ => .confirmed
        | _ => .trial kept touched
  | fate => fate

/-- Flash holds what it held when the trial began. -/
def holds (saved : PhyConfig) : Fate → Bool
  | .trial kept _ => saved == kept
  | _ => true

/-- `ServiceConfig` saved nothing during the trial, or the mode that was saved already. -/
def spared (cfg : PhyConfig) : Fate → Bool
  | .trial kept touched => !touched || kept == cfg
  | _ => true

end Fate

/-- Whether a switch brought the radio to its mode and nothing was heard in it yet. -/
def NodeAction.unproven (node : Node) (before : Bool) (action : NodeAction) : Bool :=
  if action.begins node then false
  else if (action.served node).any (·.apply.isSome) then true
  else
    match action with
    | .heard _ _ => false
    | _ => before

namespace Fate

variable {mode : Nat} {node : Node} {saved : PhyConfig} {action : NodeAction} {fate : Fate}

theorem next_eq_trial {kept : PhyConfig} {touched : Bool}
    (onTrial : fate.next mode node saved action = .trial kept touched) :
    action.begins node = false ∧ (node.step action).ms.current = some mode ∧
      ((fate = .asked ∧ node.ms.apply = some mode ∧
          (node.step action).ms.apply ≠ some mode ∧ kept = saved ∧ touched = false) ∨
        fate = .trial kept touched) := by
  cases fate with
  | confirmed | failed => cases onTrial
  | asked =>
      unfold next at onTrial
      dsimp only at onTrial
      split at onTrial
      · cases onTrial
      next running =>
        split at onTrial
        · cases onTrial
        next taken =>
          split at onTrial
          next lands =>
            cases onTrial
            exact ⟨Bool.not_eq_true _ ▸ running, lands.2,
              Or.inl ⟨rfl, lands.1, (not_or.mp taken).2, rfl, rfl⟩⟩
          · cases onTrial
  | trial before was =>
      unfold next at onTrial
      dsimp only at onTrial
      split at onTrial
      · cases onTrial
      next goesOn =>
        simp only [Bool.or_eq_true, decide_eq_true_eq, not_or, Bool.not_eq_true,
          not_not] at goesOn
        refine ⟨goesOn.1.1, goesOn.2, Or.inr ?_⟩
        split at onTrial
        · cases onTrial
        · exact onTrial

/-- A call that lands a switch leaves it on trial. -/
theorem trial_of_landed (before : fate.landed = false)
    (landed : (fate.next mode node saved action).landed = true) :
    ∃ kept touched, fate.next mode node saved action = .trial kept touched := by
  cases fate with
  | failed => cases landed
  | trial | confirmed => cases before
  | asked =>
      unfold next at landed ⊢
      dsimp only at landed ⊢
      split
      next restarts =>
        rw [if_pos restarts] at landed
        cases landed
      next running =>
        rw [if_neg running] at landed
        split
        next out =>
          rw [if_pos out] at landed
          cases landed
        next taken =>
          rw [if_neg taken] at landed
          split
          · exact ⟨saved, false, rfl⟩
          next lost =>
            rw [if_neg lost] at landed
            cases landed

end Fate

theorem NodeAction.savedMode_of_running {node : Node} {action : NodeAction}
    (running : action.begins node = false) (saved : PhyConfig) :
    action.savedMode saved = saved := by
  cases action with
  | factoryReset built => cases running
  | _ => rfl

/-! ### The engine in one call -/

namespace Node

variable {node : Node} {action : NodeAction}

/-- A service applies the pending index, whatever it is, or does nothing. -/
theorem service_applies (node : Node) (taken : UInt32) :
    (node.ms.apply = none ∧ node.serviceModeSwitch taken = node) ∨
      ∃ idx, node.ms.apply = some idx ∧
        (node.serviceModeSwitch taken).radio = (node.radio.applyModeByIndex (some idx)).2 ∧
        (node.serviceModeSwitch taken).ms.current = some idx ∧
        (node.serviceModeSwitch taken).ms.apply = none := by
  cases pending : node.ms.apply with
  | none => exact Or.inl ⟨rfl, by simp [serviceModeSwitch, ModeSwitch.takeApply, pending]⟩
  | some idx =>
      exact Or.inr ⟨idx, rfl, by simp [serviceModeSwitch, ModeSwitch.takeApply, pending]⟩

theorem step_coherent (coherent : node.radio.Coherent) (action : NodeAction) :
    (node.step action).radio.Coherent := by
  cases begins : action.begins node with
  | true =>
      obtain ⟨radio, radioCoherent, restarted⟩ := Watched.step_of_begins coherent begins
      rw [restarted]
      exact radioCoherent
  | false =>
      cases served : action.served node with
      | none =>
          rw [(Watched.step_of_not_begins coherent begins served).1]
          exact coherent
      | some ms =>
          obtain ⟨taken, serviced⟩ := Watched.step_of_served served
          rw [serviced]
          rcases service_applies { node with ms := ms } taken with
            ⟨-, stays⟩ | ⟨idx, -, radio, -, -⟩
          · rw [stays]
            exact coherent
          · rw [radio]
            exact Radio.coherent_applyModeByIndex coherent _

theorem apply_of_begins (coherent : node.radio.Coherent) (begins : action.begins node = true) :
    (node.step action).ms.apply = none := by
  obtain ⟨radio, -, restarted⟩ := Watched.step_of_begins coherent begins
  rw [restarted]
  rfl

theorem apply_of_served {ms : ModeSwitch} (served : action.served node = some ms) :
    (node.step action).ms.apply = none := by
  obtain ⟨taken, serviced⟩ := Watched.step_of_served served
  rw [serviced]
  rcases service_applies { node with ms := ms } taken with ⟨none, stays⟩ | ⟨idx, -, -, -, none⟩
  · rw [stays]
    exact none
  · exact none

end Node

theorem Node.requestMode_radio (node : Node) (ival : Int) :
    (node.requestMode ival).radio = node.radio := by
  cases ival <;> rfl

theorem Node.requestMode_apply (node : Node) (ival : Int) :
    (node.requestMode ival).ms.apply = node.ms.apply := by
  unfold Node.requestMode ModeSwitch.request
  split
  · dsimp only
    split <;> rfl
  · rfl

theorem Node.pinMode_apply (node : Node) (idx : Nat) :
    (node.pinMode true idx).ms.apply = node.ms.apply := by
  unfold Node.pinMode ModeSwitch.request
  simp only [if_true]
  split
  · rfl
  · split <;> rfl

/-- What neither starts the engine over, nor serves it, nor hands it a frame leaves the
pending index alone. -/
theorem Node.apply_of_other {node : Node} {action : NodeAction}
    (running : action.begins node = false) (unserved : action.served node = none)
    (silent : ∀ nib isInitiator, action ≠ .heard nib isInitiator) :
    (node.step action).ms.apply = node.ms.apply := by
  cases action with
  | reboot | elected | factoryReset => cases running
  | polled | serviced | sent => cases unserved
  | heard nib isInitiator => exact absurd rfl (silent nib isInitiator)
  | requested idx =>
      simp only [Node.step, ModeSwitch.request]
      split <;> rfl
  | aborted => rfl
  | reinit => rfl
  | atMode isInitiator name =>
      simp only [Node.step, Node.atMode]
      cases named : modeIndexByName name with
      | none => rfl
      | some idx =>
          simp only [NodeAction.begins, named, Option.isSome_some, Bool.and_true,
            Bool.not_eq_false'] at running
          obtain rfl := running
          exact Node.pinMode_apply _ _
  | menuMode isInitiator idx =>
      simp only [NodeAction.begins, Bool.not_eq_false'] at running
      obtain rfl := running
      exact Node.pinMode_apply _ _
  | atFmode name =>
      have stays : node.atFmode name = node := if_neg (Bool.not_eq_true _ ▸ running)
      rw [Node.step, stays]
  | rendezvous =>
      have stays : node.rendezvous = node := if_neg (of_decide_eq_false running)
      rw [Node.step, stays]

/-- An engine on `mode` stays there with its radio, when it ran out of nothing and was not
started over. -/
theorem Node.radio_of_trial {node : Node} {action : NodeAction} {mode : Nat}
    (coherent : node.radio.Coherent)
    (onMode : mode < rfModeCount → node.radio.currentModeIndex = some mode)
    (running : action.begins node = false) (stays : (node.step action).ms.current = some mode) :
    (node.step action).radio = node.radio := by
  cases served : action.served node with
  | none => exact (Watched.step_of_not_begins coherent running served).1
  | some ms =>
      obtain ⟨taken, serviced⟩ := Watched.step_of_served served
      rw [serviced] at stays ⊢
      rcases Node.service_applies { node with ms := ms } taken with
        ⟨-, same⟩ | ⟨idx, -, radio, current, -⟩
      · rw [same]
      · obtain rfl : idx = mode := Option.some.inj (current.symm.trans stays)
        rw [radio]
        by_cases inside : idx < rfModeCount
        · exact congrArg Prod.snd (coherent.restored (onMode inside) _)
        · exact congrArg Prod.snd (Radio.applyModeByIndex_outside _ (Nat.le_of_not_lt inside))

/-! ### The order of the loop -/

namespace LoopStage

variable {stage next : LoopStage} {call : NodeAction}

theorem after_stages (moves : stage.after call = some next) :
    stage ∉ [LoopStage.deferred, .targeting] ∧ next ≠ .targeting := by
  cases stage <;> cases call <;> cases moves <;> decide

theorem after_heard {nib : UInt8} {isInitiator : Bool}
    (moves : stage.after (.heard nib isInitiator) = some next) :
    stage = .turning ∧ next = .closing := by
  cases stage <;> cases moves
  exact ⟨rfl, rfl⟩

/-- After the frames of a turn come host commands, and then the service that ends it. -/
theorem after_closing (node : Node) (moves : LoopStage.closing.after call = some next) :
    (next = .closing ∧ call.served node = none) ∨
      (next = .deferred ∧ (call.served node).isSome) := by
  cases call <;> cases moves <;> first | exact Or.inl ⟨rfl, rfl⟩ | exact Or.inr ⟨rfl, rfl⟩

end LoopStage

/-! ### Picks and saves -/

/-- A board with the last picked switch that started, to `mode`. The save that waits
`owns` that switch when it is the one its pick asked for. -/
structure Picked where
  menu : ConfigMenu
  mode : Nat
  fate : Fate
  owns : Bool
  unproven : Bool
deriving DecidableEq, Repr

namespace Picked

def start (built saved : PhyConfig) : Picked where
  menu := .setup built saved
  mode := 0
  fate := .failed
  owns := false
  unproven := false

def serviceConfig (p : Picked) (isInitiator : Bool) : Picked :=
  let next := { p with menu := p.menu.serviceConfig isInitiator }
  let saved := { next with fate := p.fate.touch }
  match p.menu.stage with
  | .deferred => if p.menu.deferredSave then saved else next
  | .pinning =>
      if isInitiator then
        if p.menu.applyIval = p.menu.node.radio.modeIndex then saved else next
      else { next with fate := p.fate.cut, unproven := false }
  | .requesting =>
      match p.menu.started with
      | none => { next with owns := false }
      | some mode => { next with mode := mode, fate := .asked, owns := true }
  | .targeting => { next with owns := p.owns && p.menu.applyIval == p.mode }
  | .saving => saved
  | _ => next

def loopStep (p : Picked) (action : NodeAction) : Picked :=
  match p.menu.stage.after action with
  | none => p
  | some _ =>
      { p with
        menu := p.menu.loopStep action
        fate := p.fate.next p.mode p.menu.node p.menu.saved action
        unproven := action.unproven p.menu.node p.unproven }

def step (p : Picked) (action : ConfigAction) : Picked :=
  let next := { p with menu := p.menu.step action }
  match action with
  | .serviced isInitiator => p.serviceConfig isInitiator
  | .loop action => p.loopStep action
  | .atSave =>
      if p.menu.stage.hosts then { next with fate := p.fate.keep p.menu.node.radio.cfg } else next
  | .reboot _ => { next with fate := p.fate.cut, owns := false, unproven := false }
  | _ => next

/-- `ServiceConfig` saves a pick once its switch is confirmed, and a picked switch that fails
leaves the saved mode as it was. -/
def Sound (p : Picked) (action : ConfigAction) : Prop :=
  (p.menu.savesDeferred action → p.owns ∧ p.fate = .confirmed) ∧
    (p.menu.savesCurrent action → p.unproven = false) ∧
      ((p.step action).fate = .failed → p.fate.holds p.menu.saved)

instance (p : Picked) (action : ConfigAction) : Decidable (p.Sound action) :=
  inferInstanceAs (Decidable (_ ∧ _))

/-- The radio is never on the mode of a pick that waits, a pick of the mode it is on finds
that mode proven, and nothing saved another mode during a picked trial that fails. -/
def Spared (p : Picked) (action : ConfigAction) : Prop :=
  p.menu.savesDeferred action = false ∧
    (p.menu.savesCurrent action → p.unproven = false) ∧
      ((p.step action).fate = .failed → p.fate.spared p.menu.node.radio.cfg)

/-- The node, the saved mode and the waiting save stand in one relation with the fate of
the last picked switch. -/
structure Tracks (p : Picked) : Prop where
  coherent : p.menu.node.radio.Coherent
  applied : p.menu.stage ≠ .closing → p.menu.node.ms.apply = none
  target : p.owns → p.menu.stage ≠ .targeting → p.menu.modeSaveTarget = p.mode
  asked : p.owns → p.menu.stage = .targeting → p.fate = .asked
  waiting : p.menu.modeSavePending → p.owns → p.mode < rfModeCount → p.fate.landed →
    p.menu.stage = .deferred ∧ p.fate ≠ .confirmed
  onMode : ∀ kept touched, p.fate = .trial kept touched → p.mode < rfModeCount →
    p.menu.node.radio.currentModeIndex = some p.mode
  flash : ∀ kept touched, p.fate = .trial kept touched →
    p.menu.saved = if touched then p.menu.node.radio.cfg else kept

theorem tracks_start (built saved : PhyConfig) : (start built saved).Tracks where
  coherent := Radio.coherent_setup built saved
  applied := fun _ => rfl
  target := nofun
  asked := nofun
  waiting := nofun
  onMode := nofun
  flash := nofun

variable {p : Picked} {action : ConfigAction}

/-! ### What a save finds -/

/-- A save that waits is never of a confirmed switch: it would have fired on trial. -/
theorem Tracks.unconfirmed (tracks : p.Tracks) (saves : p.menu.savesDeferred action) :
    ¬(p.owns = true ∧ p.fate = .confirmed) := by
  rintro ⟨owns, confirmed⟩
  cases action with
  | serviced isInitiator =>
      simp only [ConfigMenu.savesDeferred, ConfigMenu.deferredSave, Bool.and_eq_true,
        beq_iff_eq] at saves
      obtain ⟨stage, pending, onTarget⟩ := saves
      have target := tracks.target owns (by simp [stage])
      have current := Radio.modeIndex_eq_iff.mp (onTarget.trans target)
      have inside := Radio.lt_of_currentModeIndex current
      exact (tracks.waiting pending owns inside (by simp [confirmed, Fate.landed])).2 confirmed
  | _ => cases saves

/-- During a trial the saved mode changes exactly by what `ServiceConfig` saved. -/
theorem Tracks.holds_eq (tracks : p.Tracks) :
    p.fate.holds p.menu.saved = p.fate.spared p.menu.node.radio.cfg := by
  cases fate : p.fate with
  | trial kept touched =>
      have flash := tracks.flash kept touched fate
      cases touched with
      | true =>
          simp only [if_true] at flash
          simp [Fate.holds, Fate.spared, flash, Bool.beq_comm]
      | false =>
          simp only [Bool.false_eq_true, if_false] at flash
          simp [Fate.holds, Fate.spared, flash]
  | _ => rfl

theorem Tracks.sound_iff (tracks : p.Tracks) : p.Sound action ↔ p.Spared action := by
  unfold Sound Spared
  rw [tracks.holds_eq]
  refine and_congr ⟨fun sound => ?_, fun never saves => ?_⟩ Iff.rfl
  · exact Bool.eq_false_iff.mpr fun saves => tracks.unconfirmed saves (sound saves)
  · rw [never] at saves
    cases saves

/-! ### One step -/

/-- The display task, or a step of `ServiceConfig` away from the engine, in the same stage
or in the next. -/
theorem Tracks.moveTo (tracks : p.Tracks) {menu : ConfigMenu} (node : menu.node = p.menu.node)
    (saved : menu.saved = p.menu.saved) (target : menu.modeSaveTarget = p.menu.modeSaveTarget)
    (pending : menu.modeSavePending = true → p.menu.modeSavePending = true)
    (stage : menu.stage = p.menu.stage ∨
      (p.menu.stage ≠ .targeting ∧ menu.stage ≠ .targeting ∧ p.menu.stage ≠ .closing ∧
        (menu.modeSavePending = true → p.owns = true → p.mode < rfModeCount →
          p.fate.landed = false))) :
    ({ p with menu := menu } : Picked).Tracks := by
  refine
    { coherent := node ▸ tracks.coherent
      applied := fun open_ => ?_
      target := fun owns away => ?_
      asked := fun owns here => ?_
      waiting := fun waits owns inside landed => ?_
      onMode := fun kept touched trial inside => node ▸ tracks.onMode kept touched trial inside
      flash := fun kept touched trial => by
        rw [node, saved]
        exact tracks.flash kept touched trial }
  · rw [node]
    rcases stage with same | ⟨-, -, notClosing, -⟩
    · exact tracks.applied (same ▸ open_)
    · exact tracks.applied notClosing
  · refine target.trans ?_
    rcases stage with same | ⟨notTargeting, -, -, -⟩
    · exact tracks.target owns (same ▸ away)
    · exact tracks.target owns notTargeting
  · rcases stage with same | ⟨-, notTargeting, -, -⟩
    · exact tracks.asked owns (same.symm.trans here)
    · exact absurd here notTargeting
  · rcases stage with same | ⟨-, -, -, ended⟩
    · obtain ⟨there, unconfirmed⟩ := tracks.waiting (pending waits) owns inside landed
      exact ⟨same.trans there, unconfirmed⟩
    · rw [ended waits owns inside] at landed
      cases landed

/-- A save is due at once when the radio reaches the mode, so no later stage finds one
waiting. -/
theorem Tracks.landed_eq_false (tracks : p.Tracks) (stage : p.menu.stage ≠ .deferred)
    (pending : p.menu.modeSavePending = true) (owns : p.owns = true)
    (inside : p.mode < rfModeCount) : p.fate.landed = false := by
  cases landed : p.fate.landed with
  | false => rfl
  | true => exact absurd (tracks.waiting pending owns inside landed).1 stage

/-- A save during a trial is noted in its fate. -/
theorem Tracks.save (tracks : p.Tracks) {fate : Fate}
    (noted : (fate = p.fate ∧ ∀ kept touched, p.fate ≠ .trial kept touched) ∨
      ∃ before was kept touched, p.fate = .trial before was ∧ fate = .trial kept touched ∧
        (touched = true ∨ kept = p.menu.node.radio.cfg)) :
    ({ p with menu := p.menu.saveSettings, fate := fate } : Picked).Tracks := by
  rcases noted with ⟨rfl, never⟩ | ⟨before, was, kept, touched, trial, rfl, right⟩
  · exact
      { coherent := tracks.coherent
        applied := tracks.applied
        target := tracks.target
        asked := tracks.asked
        waiting := tracks.waiting
        onMode := fun kept touched trial => absurd trial (never kept touched)
        flash := fun kept touched trial => absurd trial (never kept touched) }
  · refine
      { coherent := tracks.coherent
        applied := tracks.applied
        target := tracks.target
        asked := fun owns here => ?_
        waiting := fun pending owns inside _ => ?_
        onMode := fun _ _ _ inside => tracks.onMode before was trial inside
        flash := fun _ _ same => ?_ }
    · rw [tracks.asked owns here] at trial
      cases trial
    · obtain ⟨there, -⟩ := tracks.waiting pending owns inside (by simp [trial, Fate.landed])
      exact ⟨there, nofun⟩
    · cases same
      rcases right with rfl | rfl
      · rfl
      · cases touched <;> rfl

/-- `SaveSettings` in `ServiceConfig`. -/
theorem Tracks.touch (tracks : p.Tracks) :
    ({ p with menu := p.menu.saveSettings, fate := p.fate.touch } : Picked).Tracks := by
  refine tracks.save ?_
  cases fate : p.fate with
  | trial kept touched => exact Or.inr ⟨_, _, kept, true, rfl, rfl, Or.inl rfl⟩
  | _ => exact Or.inl ⟨rfl, nofun⟩

/-- `AT&W` -/
theorem Tracks.keep (tracks : p.Tracks) :
    ({ p with
      menu := p.menu.saveSettings
      fate := p.fate.keep p.menu.node.radio.cfg } : Picked).Tracks := by
  refine tracks.save ?_
  cases fate : p.fate with
  | trial kept touched => exact Or.inr ⟨_, _, _, touched, rfl, rfl, Or.inr rfl⟩
  | _ => exact Or.inl ⟨rfl, nofun⟩

/-- The display task touches nothing but the edit. -/
theorem Tracks.confirmEdit (tracks : p.Tracks) (item : ConfigItem) (draft : Int) :
    ({ p with menu := p.menu.confirmEdit item draft } : Picked).Tracks := by
  unfold ConfigMenu.confirmEdit
  split <;> exact tracks.moveTo rfl rfl rfl id (Or.inl rfl)

theorem Tracks.stash (tracks : p.Tracks) : ({ p with menu := p.menu.stash } : Picked).Tracks := by
  unfold ConfigMenu.stash
  split <;> exact tracks.moveTo rfl rfl rfl id (Or.inl rfl)

theorem Tracks.raiseFlag (tracks : p.Tracks) :
    ({ p with menu := p.menu.raiseFlag } : Picked).Tracks := by
  unfold ConfigMenu.raiseFlag
  split <;> exact tracks.moveTo rfl rfl rfl id (Or.inl rfl)

/-- Starting the engine over ends every switch that was not confirmed. -/
theorem Tracks.restart {menu : ConfigMenu} {owns unproven : Bool}
    (coherent : menu.node.radio.Coherent) (applied : menu.node.ms.apply = none)
    (target : owns = true → menu.modeSaveTarget = p.mode) (stage : menu.stage ≠ .targeting)
    (ended : menu.modeSavePending = true → owns = true → p.mode < rfModeCount →
      p.fate.landed = false) :
    ({ p with menu := menu, fate := p.fate.cut, owns := owns, unproven := unproven } :
      Picked).Tracks := by
  have landed : p.fate.landed = false → p.fate.cut.landed = false := by
    cases p.fate <;> simp [Fate.cut, Fate.landed]
  have trial : ∀ kept touched, p.fate.cut ≠ .trial kept touched := by
    cases p.fate <;> simp [Fate.cut]
  refine
    { coherent := coherent
      applied := fun _ => applied
      target := fun owned _ => target owned
      asked := fun _ here => absurd here stage
      waiting := fun pending owned inside onIt => ?_
      onMode := fun kept touched onTrial => absurd onTrial (trial kept touched)
      flash := fun kept touched onTrial => absurd onTrial (trial kept touched) }
  have off := landed (ended pending owned inside)
  rw [off] at onIt
  cases onIt

/-- A waiting save that does not fire waits for a radio that was not there yet. -/
theorem Tracks.landed_of_quiet (tracks : p.Tracks) (stage : p.menu.stage = .deferred)
    (quiet : p.menu.deferredSave = false) (pending : p.menu.modeSavePending = true)
    (owns : p.owns = true) (inside : p.mode < rfModeCount) : p.fate.landed = false := by
  cases fate : p.fate with
  | asked | failed => rfl
  | confirmed =>
      have unconfirmed := (tracks.waiting pending owns inside (by simp [fate, Fate.landed])).2
      exact absurd fate unconfirmed
  | trial kept touched =>
      have onMode := Radio.modeIndex_eq_iff.mpr (tracks.onMode kept touched fate inside)
      have target := tracks.target owns (by simp [stage])
      simp [ConfigMenu.deferredSave, pending, target, onMode] at quiet

/-- Away from the top of `ServiceConfig` no save waits for a switch that landed. -/
theorem Tracks.advance (tracks : p.Tracks) {menu : ConfigMenu} (node : menu.node = p.menu.node)
    (saved : menu.saved = p.menu.saved) (target : menu.modeSaveTarget = p.menu.modeSaveTarget)
    (pending : menu.modeSavePending = p.menu.modeSavePending)
    (leaves : p.menu.stage ∉ [LoopStage.deferred, .targeting, .closing])
    (reaches : menu.stage ≠ .targeting) : ({ p with menu := menu } : Picked).Tracks := by
  simp only [List.mem_cons, List.not_mem_nil, or_false, not_or] at leaves
  obtain ⟨notTop, notTargeting, notClosing⟩ := leaves
  refine tracks.moveTo node saved target (fun waits => pending ▸ waits)
    (Or.inr ⟨notTargeting, reaches, notClosing, fun waits => ?_⟩)
  exact tracks.landed_eq_false notTop (pending ▸ waits)

/-- The save of a pick that found the engine busy waits for no switch of its own. -/
theorem Tracks.refused (tracks : p.Tracks) (stage : p.menu.stage = .requesting) {menu : ConfigMenu}
    (node : menu.node = p.menu.node.requestMode p.menu.applyIval)
    (saved : menu.saved = p.menu.saved) :
    ({ p with menu := menu, owns := false } : Picked).Tracks where
  coherent := by
    rw [node, Node.requestMode_radio]
    exact tracks.coherent
  applied _ := by
    rw [node, Node.requestMode_apply]
    exact tracks.applied (by simp [stage])
  target := nofun
  asked := nofun
  waiting := fun _ owns => nomatch owns
  onMode kept touched trial inside := by
    rw [node, Node.requestMode_radio]
    exact tracks.onMode kept touched trial inside
  flash kept touched trial := by
    rw [saved, node, Node.requestMode_radio]
    exact tracks.flash kept touched trial

theorem Tracks.ask (tracks : p.Tracks) (stage : p.menu.stage = .requesting) {menu : ConfigMenu}
    (node : menu.node = p.menu.node.requestMode p.menu.applyIval)
    (reaches : menu.stage = .targeting) (mode : Nat) :
    ({ p with menu := menu, mode := mode, fate := .asked, owns := true } : Picked).Tracks where
  coherent := by
    rw [node, Node.requestMode_radio]
    exact tracks.coherent
  applied _ := by
    rw [node, Node.requestMode_apply]
    exact tracks.applied (by simp [stage])
  target _ away := absurd reaches away
  asked _ _ := rfl
  waiting _ _ _ landed := nomatch landed
  onMode := nofun
  flash := nofun

theorem Tracks.serviceConfig (tracks : p.Tracks) (isInitiator : Bool) :
    (p.serviceConfig isInitiator).Tracks := by
  have matching : LoopStage.matching ≠ .targeting := by decide
  have requesting : LoopStage.requesting ≠ .targeting := by decide
  have hosting : LoopStage.hosting ≠ .targeting := by decide
  unfold Picked.serviceConfig ConfigMenu.serviceConfig
  cases stage : p.menu.stage with
  | deferred =>
      have away : (if p.menu.applyPending then LoopStage.clearing else .hosting) ≠ .targeting := by
        split <;> decide
      cases due : p.menu.deferredSave with
      | true =>
          simp only [ConfigMenu.saveDeferred, due, if_true]
          exact tracks.touch.moveTo rfl rfl rfl (absurd · Bool.false_ne_true)
            (Or.inr ⟨by simp [ConfigMenu.saveSettings, stage], away,
              by simp [ConfigMenu.saveSettings, stage], (absurd · Bool.false_ne_true)⟩)
      | false =>
          simp only [ConfigMenu.saveDeferred, due, Bool.false_eq_true, if_false]
          exact tracks.moveTo rfl rfl rfl id
            (Or.inr ⟨by simp [stage], away, by simp [stage], tracks.landed_of_quiet stage due⟩)
  | clearing => exact tracks.advance rfl rfl rfl rfl (by simp [stage]) matching
  | matching =>
      refine tracks.advance rfl rfl rfl rfl (by simp [stage]) ?_
      dsimp only
      split <;> decide
  | switching =>
      refine tracks.advance rfl rfl rfl rfl (by simp [stage]) ?_
      dsimp only
      split <;> decide
  | pinning =>
      have notTop : p.menu.stage ≠ .deferred := by simp [stage]
      cases isInitiator with
      | true =>
          by_cases already : p.menu.applyIval = p.menu.node.radio.modeIndex
          · simp only [if_true, already, ne_eq, not_true_eq_false, if_false]
            exact tracks.touch.advance rfl rfl rfl rfl (by simp [ConfigMenu.saveSettings, stage])
              hosting
          · simp only [if_true, already, ne_eq, not_false_eq_true, if_false]
            exact tracks.advance rfl rfl rfl rfl (by simp [stage]) requesting
      | false =>
          simp only [Bool.false_eq_true, if_false]
          exact Tracks.restart (Radio.coherent_applyModeByIndex tracks.coherent _) rfl
            (fun owns => tracks.target owns (by simp [stage])) hosting
            (tracks.landed_eq_false notTop)
  | requesting =>
      dsimp only
      cases p.menu.started with
      | none => exact tracks.refused stage rfl rfl
      | some mode => exact tracks.ask stage rfl rfl mode
  | targeting =>
      have asked : (p.owns && p.menu.applyIval == p.mode) = true → p.fate = .asked := by
        intro owns
        rw [Bool.and_eq_true] at owns
        exact tracks.asked owns.1 stage
      exact
        { coherent := tracks.coherent
          applied := fun _ => tracks.applied (by simp [stage])
          target := fun owns _ => by
            simp only [Bool.and_eq_true, beq_iff_eq] at owns
            exact owns.2
          asked := fun _ here => absurd here hosting
          waiting := fun _ owns _ landed => by
            have asked := asked owns
            simp only [asked, Fate.landed, Bool.false_eq_true] at landed
          onMode := tracks.onMode
          flash := tracks.flash }
  | saving =>
      exact tracks.touch.advance rfl rfl rfl rfl (by simp [ConfigMenu.saveSettings, stage]) hosting
  | hosting | turning | closing => exact tracks

/-- Between two services no index waits, except after the frames of a turn. -/
theorem Tracks.applied_step (tracks : p.Tracks) {call : NodeAction} {stage : LoopStage}
    (moves : p.menu.stage.after call = some stage) (open_ : stage ≠ .closing) :
    (p.menu.node.step call).ms.apply = none := by
  cases begins : call.begins p.menu.node with
  | true => exact Node.apply_of_begins tracks.coherent begins
  | false =>
      cases served : call.served p.menu.node with
      | some ms => exact Node.apply_of_served served
      | none =>
          have silent : ∀ nib isInitiator, call ≠ .heard nib isInitiator := by
            rintro nib isInitiator rfl
            exact open_ (LoopStage.after_heard moves).2
          rw [Node.apply_of_other begins served silent]
          refine tracks.applied fun closing => ?_
          rw [closing] at moves
          rcases LoopStage.after_closing p.menu.node moves with ⟨stays, -⟩ | ⟨-, serves⟩
          · exact open_ stays
          · rw [served] at serves
            cases serves

/-- A switch lands in the service that ends the turn of its acknowledgement. -/
theorem Tracks.lands (tracks : p.Tracks) {call : NodeAction} {stage : LoopStage}
    (moves : p.menu.stage.after call = some stage) (running : call.begins p.menu.node = false)
    (pending : p.menu.node.ms.apply = some p.mode)
    (taken : (p.menu.node.step call).ms.apply ≠ some p.mode)
    (current : (p.menu.node.step call).ms.current = some p.mode) :
    stage = .deferred ∧ (p.mode < rfModeCount →
      (p.menu.node.step call).radio.currentModeIndex = some p.mode) := by
  have closing : p.menu.stage = .closing := by
    by_contra open_
    rw [tracks.applied open_] at pending
    cases pending
  rw [closing] at moves
  rcases LoopStage.after_closing p.menu.node moves with ⟨stays, unserved⟩ | ⟨done, serves⟩
  · have silent : ∀ nib isInitiator, call ≠ .heard nib isInitiator := by
      rintro nib isInitiator rfl
      cases (LoopStage.after_heard moves).1
    rw [Node.apply_of_other running unserved silent] at taken
    exact absurd pending taken
  · refine ⟨done, fun inside => ?_⟩
    obtain ⟨ms, served⟩ := Option.isSome_iff_exists.mp serves
    obtain ⟨taken, serviced⟩ := Watched.step_of_served served
    rw [serviced] at current ⊢
    rcases Node.service_applies { p.menu.node with ms := ms } taken with
      ⟨none, -⟩ | ⟨idx, -, radio, applied, -⟩
    · -- Sending can only put another index in its place.
      cases call with
      | polled now taken => cases moves
      | serviced taken =>
          cases served
          exact nomatch pending.symm.trans none
      | sent taken =>
          cases served
          change p.menu.node.ms.afterSend.apply = Option.none at none
          unfold ModeSwitch.afterSend at none
          split at none
          next armed =>
            rw [Option.isSome_iff_ne_none] at armed
            exact absurd none armed
          next => exact nomatch pending.symm.trans none
      | _ => cases served
    · obtain rfl : idx = p.mode := Option.some.inj (applied.symm.trans current)
      rw [radio]
      exact Radio.currentModeIndex_applied _ inside

theorem Tracks.loopStep (tracks : p.Tracks) (call : NodeAction) : (p.loopStep call).Tracks := by
  unfold Picked.loopStep ConfigMenu.loopStep
  cases moves : p.menu.stage.after call with
  | none => exact tracks
  | some stage =>
      obtain ⟨leaves, reaches⟩ := LoopStage.after_stages moves
      simp only [List.mem_cons, List.not_mem_nil, or_false, not_or] at leaves
      -- A switch on trial has just landed, or was on trial before.
      have trial : ∀ kept touched,
          p.fate.next p.mode p.menu.node p.menu.saved call = .trial kept touched →
          call.begins p.menu.node = false ∧
            ((p.fate = .asked ∧ kept = p.menu.saved ∧ touched = false ∧ stage = .deferred ∧
                (p.mode < rfModeCount →
                  (p.menu.node.step call).radio.currentModeIndex = some p.mode)) ∨
              (p.fate = .trial kept touched ∧
                (p.menu.node.step call).radio = p.menu.node.radio)) := by
        intro kept touched onTrial
        obtain ⟨running, current, ⟨asked, pending, taken, rfl, rfl⟩ | before⟩ :=
          Fate.next_eq_trial onTrial
        · exact ⟨running, Or.inl ⟨asked, rfl, rfl, tracks.lands moves running pending taken current⟩⟩
        · exact ⟨running, Or.inr ⟨before, Node.radio_of_trial tracks.coherent
            (tracks.onMode kept touched before) running current⟩⟩
      exact
        { coherent := Node.step_coherent tracks.coherent call
          applied := tracks.applied_step moves
          target := fun owns _ => tracks.target owns leaves.2
          asked := fun _ here => absurd here reaches
          waiting := fun pending owns inside landed => by
            have before := tracks.landed_eq_false leaves.1 pending owns inside
            obtain ⟨kept, touched, onTrial⟩ := Fate.trial_of_landed before landed
            obtain ⟨-, ⟨-, -, -, done, -⟩ | ⟨was, -⟩⟩ := trial kept touched onTrial
            · exact ⟨done, onTrial ▸ nofun⟩
            · rw [was] at before
              cases before
          onMode := fun kept touched onTrial inside => by
            obtain ⟨-, ⟨-, -, -, -, onMode⟩ | ⟨before, radio⟩⟩ := trial kept touched onTrial
            · exact onMode inside
            · change (p.menu.node.step call).radio.currentModeIndex = some p.mode
              rw [radio]
              exact tracks.onMode kept touched before inside
          flash := fun kept touched onTrial => by
            obtain ⟨running, ⟨-, rfl, rfl, -, -⟩ | ⟨before, radio⟩⟩ := trial kept touched onTrial
            · exact NodeAction.savedMode_of_running running _
            · refine (NodeAction.savedMode_of_running running _).trans ?_
              change p.menu.saved = if touched then (p.menu.node.step call).radio.cfg else kept
              rw [radio]
              exact tracks.flash kept touched before }

theorem Tracks.step (tracks : p.Tracks) (action : ConfigAction) : (p.step action).Tracks := by
  cases action with
  | confirmed item draft => exact tracks.confirmEdit item draft
  | stashed => exact tracks.stash
  | raised => exact tracks.raiseFlag
  | serviced isInitiator => exact tracks.serviceConfig isInitiator
  | loop call => exact tracks.loopStep call
  | returned =>
      change ({ p with menu := if _ then _ else _ } : Picked).Tracks
      split
      next turning => exact tracks.advance rfl rfl rfl rfl (by simp [turning]) nofun
      next => exact tracks
  | atSave =>
      unfold Picked.step ConfigMenu.step
      dsimp only
      split
      · exact tracks.keep
      · exact tracks
  | reboot built =>
      exact Tracks.restart (Radio.coherent_setup _ _) rfl nofun nofun nofun

/-- In every run, with the display task between any two accesses: picks are saved only once
their switch is confirmed, and switches that fail leave the saved mode alone, if and only
if `ServiceConfig` never finds the radio on the mode of a pick that waits, finds the mode
it is on proven, and saves nothing else during a trial that fails. -/
theorem sound_run_iff (built saved : PhyConfig) (actions : List ConfigAction) :
    Along step Sound (start built saved) actions ↔
      Along step Spared (start built saved) actions :=
  along_iff (fun _ _ tracks => tracks.sound_iff) (fun _ _ tracks _ => tracks.step _)
    (tracks_start built saved) actions

/-- The menu of an initiator picks a mode, and `ServiceConfig` takes the edit. -/
def picks (idx : Int) : List ConfigAction :=
  [.confirmed .mode idx, .stashed, .raised] ++ List.replicate 7 (.serviced true)

/-- The peer accepts 'turbo', which is saved at once, and falls silent: the board goes back. -/
def savedOnTrial : List ConfigAction :=
  picks 0 ++ [.loop (.polled 0 0), .loop (.heard 0x30 true), .loop (.serviced 100),
    .serviced true, .loop (.polled 4100 4100)]

/-- A pick of 'medium' on 'fast' is never answered; a rendezvous comes by and it is saved. -/
def savedUnanswered : List ConfigAction :=
  picks 2 ++ [.loop (.polled 0 0), .loop .rendezvous, .returned, .serviced true]

theorem sound_fails :
    (¬Along step Sound (start ⟨7, 1, 5⟩ ⟨7, 1, 5⟩) savedOnTrial ∧
      (savedOnTrial.foldl step (start ⟨7, 1, 5⟩ ⟨7, 1, 5⟩)).menu.saved = ⟨5, 2, 5⟩ ∧
      (savedOnTrial.foldl step (start ⟨7, 1, 5⟩ ⟨7, 1, 5⟩)).menu.node.radio.cfg = ⟨7, 1, 5⟩) ∧
    ¬Along step Sound (start ⟨7, 2, 5⟩ ⟨7, 2, 5⟩) savedUnanswered := by
  decide

end Picked

end LoraSerial.Device
